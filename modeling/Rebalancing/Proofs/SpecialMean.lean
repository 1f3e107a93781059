-- SUMMARY: The geometric mean of columns with zeros, negative entries and infinities: which of them decides, wherever it stands.
import Mathlib
import Rebalancing.GeometricMean
import Rebalancing.Proofs.SpecialScalar

/-!
# Special geometric means

The loop over a column adds logarithms. A zero contributes the infinity below all
numbers and an infinite entry the one above; each of them absorbs what is finite, on
either side, and the two together are undefined. So the mean of a column without
negative entries is zero as soon as one entry is, unless another entry is infinite.
-/

namespace Rebalancing

open SpecialValues

variable {F : Type} [Scalar F]

/-- One of the two infinities. -/
def IsInfinite (a : F) : Prop := a = Scalar.infinity ∨ a = -Scalar.infinity

/-- A zero, of either sign. -/
def IsZero (x : F) : Prop := Scalar.isFinite x = true ∧ ¬ x < 0 ∧ ¬ 0 < x

/-- A finite number above zero. -/
def IsProper (x : F) : Prop := Scalar.isFinite x = true ∧ 0 < x

/-- Sums, logarithms and exponentials have the special values of IEEE 754. -/
class SpecialLogarithms (F : Type) [Scalar F] extends SpecialValues F where
  isNaN_nan : Scalar.isNaN (Scalar.nan : F) = true
  /-- What is finite moves no infinity. -/
  infinite_add {a x : F} : IsInfinite a → Scalar.isFinite x = true → a + x = a
  add_infinite {a x : F} : IsInfinite a → Scalar.isFinite x = true → x + a = a
  infinite_add_self {a : F} : IsInfinite a → a + a = a
  isNaN_infinite_add_neg {a : F} : IsInfinite a → Scalar.isNaN (a + -a) = true
  infinite_div {a x : F} : IsInfinite a → IsProper x → a / x = a
  isNaN_div {x y : F} : IsProper y → Scalar.isNaN (x / y) = Scalar.isNaN x
  /-- Counts of what fits into memory are finite. -/
  isProper_ofCount {n : ℕ} : 0 < n → n < 2 ^ 64 → IsProper (Scalar.ofCount n : F)
  isNaN_log {x : F} : Scalar.isNaN x = true ∨ x < 0 → Scalar.isNaN (Scalar.log x) = true
  log_zero {x : F} : IsZero x → Scalar.log x = -Scalar.infinity
  log_infinity : Scalar.log (Scalar.infinity : F) = Scalar.infinity
  isFinite_log {x : F} : IsProper x → Scalar.isFinite (Scalar.log x) = true
  /-- Logarithms that are finite are small, and so are their sums. -/
  isFinite_sum_log {n : ℕ} {f : ℕ → F} : (∀ i < n, Scalar.isFinite (Scalar.log (f i)) = true) →
    Scalar.isFinite (sumTo n fun i => Scalar.log (f i)) = true
  exp_infinity : Scalar.exp (Scalar.infinity : F) = Scalar.infinity
  exp_neg_infinity : Scalar.exp (-Scalar.infinity : F) = 0
  isNaN_exp (x : F) : Scalar.isNaN (Scalar.exp x) = Scalar.isNaN x

/-! ## Infinities -/

section Infinities

variable [SpecialValues F] {a : F}

theorem infinity_ne_neg : (Scalar.infinity : F) ≠ -Scalar.infinity := by
  intro h
  have hbelow : (-Scalar.infinity : F) < 0 := neg_infinity_lt isFinite_zero
  rw [← h] at hbelow
  exact lt_asymm hbelow (lt_infinity isFinite_zero)

omit [SpecialValues F] in
theorem isInfinite_infinity : IsInfinite (Scalar.infinity : F) := .inl rfl

omit [SpecialValues F] in
theorem isInfinite_neg_infinity : IsInfinite (-Scalar.infinity : F) := .inr rfl

namespace IsInfinite

theorem neg (ha : IsInfinite a) : IsInfinite (-a) := by
  rcases ha with rfl | rfl
  · exact isInfinite_neg_infinity
  · exact .inl neg_neg_infinity

theorem neg_neg (ha : IsInfinite a) : - -a = a := by
  rcases ha with rfl | rfl
  · exact neg_neg_infinity
  · rw [neg_neg_infinity]

theorem ne_neg (ha : IsInfinite a) : a ≠ -a := by
  rcases ha with rfl | rfl
  · exact infinity_ne_neg
  · rw [neg_neg_infinity]
    exact infinity_ne_neg.symm

theorem isNaN (ha : IsInfinite a) : Scalar.isNaN a = false := by
  by_contra hnan
  rw [Bool.not_eq_false] at hnan
  rcases ha with rfl | rfl
  · exact not_lt_of_isNaN (.inr hnan) (lt_infinity isFinite_zero)
  · exact not_lt_of_isNaN (.inl hnan) (neg_infinity_lt isFinite_zero)

/-- What is neither finite nor undefined is an infinity or its opposite. -/
theorem kinds (ha : IsInfinite a) (x : F) :
    Scalar.isFinite x = true ∨ Scalar.isNaN x = true ∨ x = a ∨ x = -a := by
  rcases ha with rfl | rfl
  · exact SpecialValues.kinds x
  · rw [neg_neg_infinity, or_comm (a := x = -Scalar.infinity)]
    exact SpecialValues.kinds x

end IsInfinite

end Infinities

open SpecialLogarithms

variable [SpecialLogarithms F]

/-! ## Sums -/

section Sums

variable {n : ℕ} {f : ℕ → F} {a : F}

omit [SpecialLogarithms F] in
theorem sumTo_succ (n : ℕ) (f : ℕ → F) : sumTo (n + 1) f = sumTo n f + f n := sumFrom_succ 0 n f

/-- What is undefined is never left again. -/
theorem isNaN_sumTo (h : ∃ i < n, Scalar.isNaN (f i) = true) : Scalar.isNaN (sumTo n f) = true := by
  induction n with
  | zero =>
    obtain ⟨i, hi, -⟩ := h
    omega
  | succ n ih =>
    rw [sumTo_succ]
    obtain ⟨i, hi, hnan⟩ := h
    rcases Nat.lt_succ_iff_lt_or_eq.mp hi with hlt | rfl
    · exact isNaN_add (.inl (ih ⟨i, hlt, hnan⟩))
    · exact isNaN_add (.inr hnan)

section Infinite

variable (ha : IsInfinite a)
  (hfinite : ∀ k ≤ n, (∀ i < k, Scalar.isFinite (f i) = true) → Scalar.isFinite (sumTo k f) = true)

include ha hfinite

/-- Once an infinity has been added the sum stays there, while no summand is undefined or
the other infinity. -/
theorem sumTo_eq_infinite (hrest : ∀ i < n, Scalar.isFinite (f i) = true ∨ f i = a)
    (h : ∃ i < n, f i = a) : sumTo n f = a := by
  induction n with
  | zero =>
    obtain ⟨i, hi, -⟩ := h
    omega
  | succ n ih =>
    rw [sumTo_succ]
    by_cases hbefore : ∃ i < n, f i = a
    · rw [ih (fun k hk => hfinite k (by omega)) (fun i hi => hrest i (by omega)) hbefore]
      rcases hrest n n.lt_succ_self with hlast | hlast
      · exact infinite_add ha hlast
      · rw [hlast, infinite_add_self ha]
    · have hpart : Scalar.isFinite (sumTo n f) = true := by
        refine hfinite n n.le_succ fun i hi => ?_
        exact (hrest i (by omega)).resolve_right fun hi' => hbefore ⟨i, hi, hi'⟩
      obtain ⟨i, hi, hi'⟩ := h
      obtain rfl : i = n := by
        by_contra hne
        exact hbefore ⟨i, by omega, hi'⟩
      rw [hi', add_infinite ha hpart]

/-- The first infinity that comes after its opposite makes the sum undefined. -/
theorem isNaN_add_of_opposite (hbefore : ∃ i < n, f i = a) (hother : ¬ ∃ i < n, f i = -a) :
    Scalar.isNaN (sumTo n f + -a) = true := by
  by_cases hnan : ∃ i < n, Scalar.isNaN (f i) = true
  · exact isNaN_add (.inl (isNaN_sumTo hnan))
  · have hrest : ∀ i < n, Scalar.isFinite (f i) = true ∨ f i = a := by
      intro i hi
      obtain h | h | h | h := ha.kinds (f i)
      · exact .inl h
      · exact absurd ⟨i, hi, h⟩ hnan
      · exact .inr h
      · exact absurd ⟨i, hi, h⟩ hother
    rw [sumTo_eq_infinite ha hfinite hrest hbefore]
    exact isNaN_infinite_add_neg ha

/-- A sum in which both infinities occur is undefined. -/
theorem isNaN_sumTo_of_both (h : ∃ i < n, f i = a) (h' : ∃ i < n, f i = -a) :
    Scalar.isNaN (sumTo n f) = true := by
  induction n with
  | zero =>
    obtain ⟨i, hi, -⟩ := h
    omega
  | succ n ih =>
    have hfinite_n := fun k (hk : k ≤ n) => hfinite k (by omega)
    rw [sumTo_succ]
    by_cases hpos : ∃ i < n, f i = a
    · by_cases hneg : ∃ i < n, f i = -a
      · exact isNaN_add (.inl (ih hfinite_n hpos hneg))
      · obtain ⟨i, hi, hi'⟩ := h'
        obtain rfl : i = n := by
          by_contra hne
          exact hneg ⟨i, by omega, hi'⟩
        rw [hi']
        exact isNaN_add_of_opposite ha hfinite_n hpos hneg
    · obtain ⟨i, hi, hi'⟩ := h
      obtain rfl : i = n := by
        by_contra hne
        exact hpos ⟨i, by omega, hi'⟩
      have hneg : ∃ j < i, f j = -a := by
        obtain ⟨j, hj, hj'⟩ := h'
        refine ⟨j, lt_of_le_of_ne (Nat.le_of_lt_succ hj) ?_, hj'⟩
        rintro rfl
        exact ha.ne_neg (hi'.symm.trans hj')
      have hback := ha.neg_neg
      rw [hi', ← hback]
      refine isNaN_add_of_opposite ha.neg hfinite_n hneg ?_
      rwa [hback]

end Infinite

end Sums

/-! ## Entries -/

/-- An entry has an undefined logarithm, or is a zero, or infinite, or proper. -/
theorem entry_cases (x : F) :
    (Scalar.isNaN x = true ∨ x < 0) ∨ IsZero x ∨ x = Scalar.infinity ∨ IsProper x := by
  obtain hfinite | hnan | rfl | rfl := kinds x
  · by_cases hneg : x < 0
    · exact .inl (.inr hneg)
    · by_cases hpos : 0 < x
      · exact .inr (.inr (.inr ⟨hfinite, hpos⟩))
      · exact .inr (.inl ⟨hfinite, hneg, hpos⟩)
  · exact .inl (.inl hnan)
  · exact .inr (.inr (.inl rfl))
  · exact .inl (.inr (neg_infinity_lt isFinite_zero))

namespace Column

variable {v : Column F}

/-- The sum that the loop over the column ends with. -/
def logSum (v : Column F) : F := sumTo v.size fun i => Scalar.log (v.coord i)

omit [SpecialLogarithms F] in
theorem geometricMean_eq (h : v.size ≠ 0) :
    v.geometricMean = Scalar.exp (v.logSum / Scalar.ofCount v.size) := by
  have hempty : v.isEmpty = false := by simpa using h
  rw [geometricMean, hempty, if_neg Bool.false_ne_true, logSum]

omit [SpecialLogarithms F] in
theorem exists_coord {P : F → Prop} (h : ∃ e ∈ v, P e) : ∃ i < v.size, P (v.coord i) := by
  by_contra hnone
  obtain ⟨e, he, hP⟩ := h
  exact (v.forall_mem_iff fun e => ¬ P e).mpr (fun i hi hi' => hnone ⟨i, hi, hi'⟩) e he hP

omit [SpecialLogarithms F] in
theorem coord_mem {i : ℕ} (hi : i < v.size) : v.coord i ∈ v := by
  rw [coord_eq_getElem hi]
  exact Array.getElem_mem hi

theorem isFinite_prefix : ∀ k ≤ v.size, (∀ i < k, Scalar.isFinite (Scalar.log (v.coord i)) = true) →
    Scalar.isFinite (sumTo k fun i => Scalar.log (v.coord i)) = true :=
  fun _ _ => isFinite_sum_log

/-! ## Sums of logarithms -/

theorem isNaN_logSum (h : ∃ e ∈ v, Scalar.isNaN e = true ∨ e < 0) :
    Scalar.isNaN v.logSum = true := by
  obtain ⟨i, hi, hbad⟩ := exists_coord h
  exact isNaN_sumTo ⟨i, hi, isNaN_log hbad⟩

theorem isNaN_logSum_of_both (hzero : ∃ e ∈ v, IsZero e) (hinf : Scalar.infinity ∈ v) :
    Scalar.isNaN v.logSum = true := by
  obtain ⟨i, hi, hzero⟩ := exists_coord hzero
  obtain ⟨j, hj, hinf⟩ := exists_coord ⟨_, hinf, rfl⟩
  have hlog : Scalar.log (v.coord j) = Scalar.infinity := by rw [← hinf, log_infinity]
  exact isNaN_sumTo_of_both isInfinite_infinity isFinite_prefix ⟨j, hj, hlog⟩
    ⟨i, hi, log_zero hzero⟩

section Defined

variable (hdefined : ¬ ∃ e ∈ v, Scalar.isNaN e = true ∨ e < 0)

include hdefined

theorem coord_cases {i : ℕ} (hi : i < v.size) :
    IsZero (v.coord i) ∨ v.coord i = Scalar.infinity ∨
      Scalar.isFinite (Scalar.log (v.coord i)) = true := by
  obtain hbad | hzero | hinf | hproper := entry_cases (v.coord i)
  · exact absurd ⟨_, coord_mem hi, hbad⟩ hdefined
  · exact .inl hzero
  · exact .inr (.inl hinf)
  · exact .inr (.inr (isFinite_log hproper))

theorem logSum_eq_neg_infinity (hzero : ∃ e ∈ v, IsZero e) (hinf : Scalar.infinity ∉ v) :
    v.logSum = -Scalar.infinity := by
  obtain ⟨i, hi, hzero⟩ := exists_coord hzero
  refine sumTo_eq_infinite isInfinite_neg_infinity isFinite_prefix (fun j hj => ?_)
    ⟨i, hi, log_zero hzero⟩
  obtain hzero | habove | hfinite := coord_cases hdefined hj
  · exact .inr (log_zero hzero)
  · exact absurd (habove ▸ coord_mem hj) hinf
  · exact .inl hfinite

theorem logSum_eq_infinity (hzero : ¬ ∃ e ∈ v, IsZero e) (hinf : Scalar.infinity ∈ v) :
    v.logSum = Scalar.infinity := by
  have hlog : ∀ {j}, v.coord j = Scalar.infinity →
      Scalar.log (v.coord j) = Scalar.infinity := by
    intro j hj
    rw [hj, log_infinity]
  obtain ⟨i, hi, hinf⟩ := exists_coord ⟨_, hinf, rfl⟩
  refine sumTo_eq_infinite isInfinite_infinity isFinite_prefix (fun j hj => ?_)
    ⟨i, hi, hlog hinf.symm⟩
  obtain hzero' | habove | hfinite := coord_cases hdefined hj
  · exact absurd ⟨_, coord_mem hj, hzero'⟩ hzero
  · exact .inr (hlog habove)
  · exact .inl hfinite

theorem isFinite_logSum (hzero : ¬ ∃ e ∈ v, IsZero e) (hinf : Scalar.infinity ∉ v) :
    Scalar.isFinite v.logSum = true := by
  refine isFinite_sum_log fun i hi => ?_
  obtain hzero' | habove | hfinite := coord_cases hdefined hi
  · exact absurd ⟨_, coord_mem hi, hzero'⟩ hzero
  · exact absurd (habove ▸ coord_mem hi) hinf
  · exact hfinite

end Defined

/-! ## Means -/

theorem isNaN_geometricMean (h : v.size ≠ 0) (hsize : v.size < 2 ^ 64) :
    Scalar.isNaN v.geometricMean = Scalar.isNaN v.logSum := by
  rw [geometricMean_eq h, isNaN_exp,
    isNaN_div (isProper_ofCount (Nat.pos_of_ne_zero h) hsize)]

/-- The mean of a column whose logarithms add up to an infinity. -/
theorem geometricMean_of_logSum {a : F} (ha : IsInfinite a) (h : v.size ≠ 0)
    (hsize : v.size < 2 ^ 64) (hsum : v.logSum = a) : v.geometricMean = Scalar.exp a := by
  rw [geometricMean_eq h, hsum, infinite_div ha (isProper_ofCount (Nat.pos_of_ne_zero h) hsize)]

/-- The geometric mean of any column that fits into memory. It is undefined for the empty
column, beside a negative or an undefined entry, and where a zero meets an infinite entry;
otherwise it is zero as soon as one entry is, and infinite as soon as one entry is. -/
theorem geometricMean_special (v : Column F) (hsize : v.size < 2 ^ 64) :
    (Scalar.isNaN v.geometricMean = true ↔
      v = #[] ∨ (∃ e ∈ v, Scalar.isNaN e = true ∨ e < 0) ∨
        (∃ e ∈ v, IsZero e) ∧ Scalar.infinity ∈ v) ∧
    (Scalar.isNaN v.geometricMean = false → (∃ e ∈ v, IsZero e) → v.geometricMean = 0) ∧
    (Scalar.isNaN v.geometricMean = false → Scalar.infinity ∈ v →
      v.geometricMean = Scalar.infinity) := by
  by_cases hempty : v = #[]
  · subst hempty
    have hnan : Scalar.isNaN (geometricMean (#[] : Column F)) = true := isNaN_nan
    simp [hnan]
  have hne : v.size ≠ 0 := fun h => hempty (Array.size_eq_zero_iff.mp h)
  rw [isNaN_geometricMean hne hsize]
  by_cases hdefined : ∃ e ∈ v, Scalar.isNaN e = true ∨ e < 0
  · simp only [isNaN_logSum hdefined, hdefined, true_or, or_true, Bool.true_eq_false,
      false_implies, and_self]
  by_cases hzero : ∃ e ∈ v, IsZero e
  · by_cases hinf : Scalar.infinity ∈ v
    · simp only [isNaN_logSum_of_both hzero hinf, hzero, hinf, and_self, or_true,
        Bool.true_eq_false, false_implies]
    · have hsum := logSum_eq_neg_infinity hdefined hzero hinf
      have hmean := geometricMean_of_logSum isInfinite_neg_infinity hne hsize hsum
      rw [hsum, isInfinite_neg_infinity.isNaN, hmean, exp_neg_infinity]
      simp only [hempty, hdefined, hinf, and_false, or_false, Bool.false_eq_true, false_implies,
        implies_true, and_self]
  · by_cases hinf : Scalar.infinity ∈ v
    · have hsum := logSum_eq_infinity hdefined hzero hinf
      have hmean := geometricMean_of_logSum isInfinite_infinity hne hsize hsum
      rw [hsum, isInfinite_infinity.isNaN, hmean, exp_infinity]
      simp only [hempty, hdefined, hzero, false_and, or_false, Bool.false_eq_true, false_implies,
        implies_true, and_self]
    · rw [isNaN_of_isFinite (isFinite_logSum hdefined hzero hinf)]
      simp only [hempty, hdefined, hzero, hinf, or_false, Bool.false_eq_true, false_implies,
        implies_true, and_self]

end Column

/-! ## Extended real numbers -/

namespace Extended

theorem isZero_iff {a : Extended} : IsZero a ↔ a = real 0 := by
  constructor
  · rintro ⟨hfinite, hneg, hpos⟩
    obtain ⟨x, rfl⟩ := isFinite_iff.mp hfinite
    rw [zero_def, real_lt, not_lt] at hneg hpos
    rw [le_antisymm hpos hneg]
  · rintro rfl
    exact ⟨rfl, lt_irrefl (0 : ℝ), lt_irrefl (0 : ℝ)⟩

theorem isProper_iff {a : Extended} : IsProper a ↔ ∃ x, 0 < x ∧ a = real x := by
  constructor
  · rintro ⟨hfinite, hpos⟩
    obtain ⟨x, rfl⟩ := isFinite_iff.mp hfinite
    exact ⟨x, hpos, rfl⟩
  · rintro ⟨x, hpos, rfl⟩
    exact ⟨rfl, hpos⟩

theorem log_real {x : ℝ} (hx : 0 < x) : Scalar.log (real x) = real (Real.log x) := by
  change (if x < 0 then undefined else if x = 0 then below else real (Real.log x)) = _
  rw [if_neg hx.le.not_gt, if_neg hx.ne']

theorem isFinite_sumTo {n : ℕ} {f : ℕ → Extended} (h : ∀ i < n, Scalar.isFinite (f i) = true) :
    Scalar.isFinite (sumTo n f) = true := by
  induction n with
  | zero => rfl
  | succ n ih =>
    obtain ⟨x, hx⟩ := isFinite_iff.mp (ih fun i hi => h i (by omega))
    obtain ⟨y, hy⟩ := isFinite_iff.mp (h n n.lt_succ_self)
    rw [sumTo_succ, hx, hy]
    rfl

end Extended

open Extended in
instance : SpecialLogarithms Extended where
  isNaN_nan := rfl
  infinite_add ha hx := by
    obtain ⟨x, rfl⟩ := isFinite_iff.mp hx
    rcases ha with rfl | rfl <;> rfl
  add_infinite ha hx := by
    obtain ⟨x, rfl⟩ := isFinite_iff.mp hx
    rcases ha with rfl | rfl <;> rfl
  infinite_add_self ha := by rcases ha with rfl | rfl <;> rfl
  isNaN_infinite_add_neg ha := by rcases ha with rfl | rfl <;> rfl
  infinite_div ha hx := by
    obtain ⟨x, hpos, rfl⟩ := isProper_iff.mp hx
    rcases ha with rfl | rfl <;> exact if_neg hpos.le.not_gt
  isNaN_div {x y} hy := by
    obtain ⟨y, hpos, rfl⟩ := isProper_iff.mp hy
    cases x with
    | real x => rw [real_div _ _ hpos.ne']; rfl
    | undefined => rfl
    | below => exact congrArg isNaN (if_neg hpos.le.not_gt)
    | above => exact congrArg isNaN (if_neg hpos.le.not_gt)
  isProper_ofCount hn _ := isProper_iff.mpr ⟨_, Nat.cast_pos.mpr hn, rfl⟩
  isNaN_log {x} h := by
    cases x with
    | undefined => rfl
    | below => rfl
    | real x =>
      have hneg : x < 0 := h.resolve_left Bool.false_ne_true
      exact congrArg isNaN (if_pos hneg)
    | above => exact absurd h (by rintro (h | h) <;> cases h)
  log_zero h := by
    obtain rfl := isZero_iff.mp h
    exact (if_neg (lt_irrefl 0)).trans (if_pos rfl)
  log_infinity := rfl
  isFinite_log h := by
    obtain ⟨x, hpos, rfl⟩ := isProper_iff.mp h
    rw [log_real hpos]
    rfl
  isFinite_sum_log h := isFinite_sumTo h
  exp_infinity := rfl
  exp_neg_infinity := rfl
  isNaN_exp x := by cases x <;> rfl

open Extended in
/-- One zero between other numbers makes the mean zero. -/
theorem Column.geometricMean_special_zero :
    (#[real 2, real 0, real 3] : Column Extended).size < 2 ^ 64 ∧
      Column.geometricMean #[real 2, real 0, real 3] = real 0 := by
  have hsize : (#[real 2, real 0, real 3] : Column Extended).size < 2 ^ 64 := by
    simp
  obtain ⟨hnan, hzero, -⟩ := Column.geometricMean_special #[real 2, real 0, real 3] hsize
  refine ⟨hsize, hzero ?_ ⟨real 0, by simp, isZero_iff.mpr rfl⟩⟩
  rw [← Bool.not_eq_true, hnan]
  simp [Scalar.isNaN, isNaN]

open Extended in
/-- A zero before an infinite entry: no entry is undefined or negative, and the mean is
undefined where zero is expected. -/
theorem Column.geometricMean_zero_above :
    (∀ e ∈ (#[real 0, above] : Column Extended), Scalar.isNaN e = false ∧ ¬ e < 0) ∧
      (∃ e ∈ (#[real 0, above] : Column Extended), IsZero e) ∧
      Column.geometricMean (#[real 0, above] : Column Extended) ≠ 0 := by
  have hzero : ∃ e ∈ (#[real 0, above] : Column Extended), IsZero e :=
    ⟨real 0, by simp, isZero_iff.mpr rfl⟩
  refine ⟨?_, hzero, fun hmean => ?_⟩
  · simp only [Array.mem_def, List.mem_cons, List.not_mem_nil, or_false, forall_eq_or_imp,
      forall_eq]
    exact ⟨⟨rfl, lt_irrefl (0 : ℝ)⟩, rfl, id⟩
  · have hnan :
        Scalar.isNaN (Column.geometricMean (#[real 0, above] : Column Extended)) = true := by
      rw [Column.isNaN_geometricMean (by simp) (by simp)]
      exact Column.isNaN_logSum_of_both hzero (by simp)
    rw [hmean] at hnan
    cases hnan

end Rebalancing
