-- SUMMARY: Scalars with the special values of a machine float: the laws that these obey, and the real numbers extended by them.
import Mathlib
import Rebalancing.Proofs.ExactScalar

/-!
# Special values

A machine float is finite, one of two infinities, or undefined. What arithmetic and
comparison make of values that are not finite is fixed by IEEE 754 and does not
depend on rounding, so it is stated as laws that any such scalars obey. The laws
leave open how a finite result is rounded and when it exceeds what is finite.

The real numbers extended by the special values obey the laws. They have one zero
and do not round.
-/

namespace Rebalancing

/-- The scalars have the special values of IEEE 754. -/
class SpecialValues (F : Type) [Scalar F] : Prop where
  kinds (x : F) : Scalar.isFinite x = true ∨ Scalar.isNaN x = true ∨ x = Scalar.infinity ∨
    x = -Scalar.infinity
  isNaN_of_isFinite {x : F} : Scalar.isFinite x = true → Scalar.isNaN x = false
  isFinite_zero : Scalar.isFinite (0 : F) = true
  isFinite_tenToMinus (k : ℕ) : Scalar.isFinite (Scalar.tenToMinus k : F) = true
  /-- Comparisons with an undefined value are false. -/
  not_lt_of_isNaN {x y : F} : Scalar.isNaN x = true ∨ Scalar.isNaN y = true → ¬ x < y
  /-- All other values are in order. -/
  le_of_not_lt {x y : F} :
    Scalar.isNaN x = false → Scalar.isNaN y = false → ¬ x < y → y ≤ x
  lt_asymm {x y : F} : x < y → ¬ y < x
  lt_infinity {x : F} : Scalar.isFinite x = true → x < Scalar.infinity
  neg_infinity_lt {x : F} : Scalar.isFinite x = true → -Scalar.infinity < x
  neg_neg_infinity : -(-Scalar.infinity : F) = Scalar.infinity
  /-- What is undefined stays undefined. -/
  isNaN_add {x y : F} : Scalar.isNaN x = true ∨ Scalar.isNaN y = true → Scalar.isNaN (x + y) = true
  isNaN_sub {x y : F} : Scalar.isNaN x = true ∨ Scalar.isNaN y = true → Scalar.isNaN (x - y) = true
  isNaN_mul {x y : F} : Scalar.isNaN x = true ∨ Scalar.isNaN y = true → Scalar.isNaN (x * y) = true
  add_neg_infinity {x : F} : Scalar.isFinite x = true → x + -Scalar.infinity = -Scalar.infinity
  sub_infinity {x : F} : Scalar.isFinite x = true → x - Scalar.infinity = -Scalar.infinity
  neg_infinity_sub {x : F} : Scalar.isFinite x = true → -Scalar.infinity - x = -Scalar.infinity
  neg_infinity_sub_infinity : (-Scalar.infinity - Scalar.infinity : F) = -Scalar.infinity
  infinity_sub_infinity : Scalar.isNaN (Scalar.infinity - Scalar.infinity : F) = true
  mul_infinity_of_neg {x : F} :
    Scalar.isFinite x = true → x < 0 → x * Scalar.infinity = -Scalar.infinity
  /-- Zero times an infinity is undefined. -/
  isNaN_mul_infinity {x : F} : Scalar.isFinite x = true → ¬ x < 0 → ¬ 0 < x →
    Scalar.isNaN (x * Scalar.infinity) = true

/-! ## Extended real numbers -/

/-- A real number or a special value. -/
inductive Extended where
  | undefined
  | below
  | real (x : ℝ)
  | above

namespace Extended

/-- On which side of zero a value lies; the undefined value is on neither. -/
noncomputable def side : Extended → SignType
  | undefined => 0
  | below => -1
  | real x => SignType.sign x
  | above => 1

/-- The infinity on a side of zero; on neither side there is none. -/
def infinityOn : SignType → Extended
  | .neg => below
  | .zero => undefined
  | .pos => above

noncomputable def add : Extended → Extended → Extended
  | real x, real y => real (x + y)
  | undefined, _ => undefined
  | _, undefined => undefined
  | below, above => undefined
  | above, below => undefined
  | below, _ => below
  | _, below => below
  | above, _ => above
  | _, above => above

noncomputable def neg : Extended → Extended
  | real x => real (-x)
  | undefined => undefined
  | below => above
  | above => below

noncomputable def mul : Extended → Extended → Extended
  | real x, real y => real (x * y)
  | undefined, _ => undefined
  | _, undefined => undefined
  | a, b => infinityOn (a.side * b.side)

/-- Division by zero leads to the infinity on the side of the dividend. -/
noncomputable def div : Extended → Extended → Extended
  | real x, real y => if y = 0 then infinityOn (SignType.sign x) else real (x / y)
  | undefined, _ => undefined
  | _, undefined => undefined
  | real _, _ => real 0
  | a, real y => if y < 0 then a.neg else a
  | _, _ => undefined

noncomputable def sqrt : Extended → Extended
  | real x => if x < 0 then undefined else real √x
  | above => above
  | _ => undefined

noncomputable def log : Extended → Extended
  | real x => if x < 0 then undefined else if x = 0 then below else real (Real.log x)
  | above => above
  | _ => undefined

noncomputable def exp : Extended → Extended
  | real x => real (Real.exp x)
  | below => real 0
  | above => above
  | undefined => undefined

noncomputable def abs : Extended → Extended
  | real x => real |x|
  | undefined => undefined
  | _ => above

def lt : Extended → Extended → Prop
  | real x, real y => x < y
  | below, real _ => True
  | below, above => True
  | real _, above => True
  | _, _ => False

def le : Extended → Extended → Prop
  | real x, real y => x ≤ y
  | undefined, _ => False
  | _, undefined => False
  | below, _ => True
  | _, above => True
  | _, _ => False

noncomputable def ceilCount : Extended → ℕ
  | real x => ⌈x⌉₊
  | _ => 0

def isNaN : Extended → Bool
  | undefined => true
  | _ => false

def isFinite : Extended → Bool
  | real _ => true
  | _ => false

noncomputable instance : Scalar Extended where
  zero := real 0
  one := real 1
  add := add
  sub x y := add x (neg y)
  mul := mul
  div := div
  neg := neg
  lt := lt
  le := le
  sqrt := sqrt
  log := log
  exp := exp
  abs := abs
  ofCount n := real n
  ceilCount := ceilCount
  nan := undefined
  infinity := above
  isNaN := isNaN
  isFinite := isFinite
  decLT _ _ := Classical.propDecidable _
  decLE _ _ := Classical.propDecidable _

/-! ## Operations -/

theorem isFinite_iff {a : Extended} : Scalar.isFinite a = true ↔ ∃ x, a = real x := by
  constructor
  · intro h
    cases a with
    | real x => exact ⟨x, rfl⟩
    | _ => cases h
  · rintro ⟨x, rfl⟩
    rfl

theorem isNaN_iff {a : Extended} : Scalar.isNaN a = true ↔ a = undefined := by
  constructor
  · intro h
    cases a with
    | undefined => rfl
    | _ => cases h
  · rintro rfl
    rfl

theorem isNaN_eq_false_iff {a : Extended} : Scalar.isNaN a = false ↔ a ≠ undefined := by
  rw [← Bool.not_eq_true, isNaN_iff]

section Operations

variable (x y : ℝ)

@[simp] theorem zero_def : (0 : Extended) = real 0 := rfl

@[simp] theorem one_def : (1 : Extended) = real 1 := rfl

@[simp] theorem infinity_def : (Scalar.infinity : Extended) = above := rfl

@[simp] theorem ofCount_def (n : ℕ) : (Scalar.ofCount n : Extended) = real n := rfl

@[simp] theorem real_add : real x + real y = real (x + y) := rfl

@[simp] theorem real_sub : real x - real y = real (x - y) :=
  congrArg real (sub_eq_add_neg x y).symm

@[simp] theorem real_mul : real x * real y = real (x * y) := rfl

@[simp] theorem neg_real : -real x = real (-x) := rfl

@[simp] theorem real_div (hy : y ≠ 0) : real x / real y = real (x / y) := if_neg hy

@[simp] theorem real_lt : real x < real y ↔ x < y := Iff.rfl

@[simp] theorem real_le : real x ≤ real y ↔ x ≤ y := Iff.rfl

theorem real_mul_above : real x * above = infinityOn (SignType.sign x) :=
  congrArg infinityOn (mul_one (SignType.sign x))

end Operations

section Undefined

variable {a b : Extended} (h : a = undefined ∨ b = undefined)

include h

theorem not_lt_of_undefined : ¬ a < b := by
  rcases h with rfl | rfl
  · exact id
  · cases a <;> exact id

theorem add_of_undefined : a + b = undefined := by
  rcases h with rfl | rfl
  · rfl
  · cases a <;> rfl

theorem sub_of_undefined : a - b = undefined := by
  refine add_of_undefined (h.imp_right ?_)
  rintro rfl
  rfl

theorem mul_of_undefined : a * b = undefined := by
  rcases h with rfl | rfl
  · rfl
  · cases a <;> rfl

end Undefined

theorem le_of_not_lt {a b : Extended} (ha : a ≠ undefined) (hb : b ≠ undefined) (h : ¬ a < b) :
    b ≤ a := by
  cases a with
  | undefined => exact absurd rfl ha
  | below =>
    cases b with
    | undefined => exact absurd rfl hb
    | below => trivial
    | _ => exact absurd trivial h
  | real x =>
    cases b with
    | undefined => exact absurd rfl hb
    | below => trivial
    | real y => exact (real_le y x).mpr (not_lt.mp fun hlt => h ((real_lt x y).mpr hlt))
    | above => exact absurd trivial h
  | above =>
    cases b with
    | undefined => exact absurd rfl hb
    | _ => trivial

theorem lt_asymm {a b : Extended} (h : a < b) : ¬ b < a := by
  cases a with
  | real x =>
    cases b with
    | real y => exact fun hba => ((real_lt x y).mp h).asymm ((real_lt y x).mp hba)
    | above => exact id
    | _ => cases h
  | below => cases b <;> exact id
  | _ => cases h

end Extended

open Extended in
instance : SpecialValues Extended where
  kinds x := by
    cases x with
    | undefined => exact .inr (.inl rfl)
    | below => exact .inr (.inr (.inr rfl))
    | real x => exact .inl rfl
    | above => exact .inr (.inr (.inl rfl))
  isNaN_of_isFinite h := by
    obtain ⟨x, rfl⟩ := isFinite_iff.mp h
    rfl
  isFinite_zero := rfl
  isFinite_tenToMinus k := by
    have hpow : ((Nat.pow 10 k : ℕ) : ℝ) ≠ 0 := by simp
    rw [Scalar.tenToMinus, one_def, ofCount_def, real_div _ _ hpow]
    rfl
  not_lt_of_isNaN h := not_lt_of_undefined (h.imp isNaN_iff.mp isNaN_iff.mp)
  le_of_not_lt ha hb h :=
    Extended.le_of_not_lt (isNaN_eq_false_iff.mp ha) (isNaN_eq_false_iff.mp hb) h
  lt_asymm := Extended.lt_asymm
  lt_infinity h := by
    obtain ⟨x, rfl⟩ := isFinite_iff.mp h
    trivial
  neg_infinity_lt h := by
    obtain ⟨x, rfl⟩ := isFinite_iff.mp h
    trivial
  neg_neg_infinity := rfl
  isNaN_add h := isNaN_iff.mpr (add_of_undefined (h.imp isNaN_iff.mp isNaN_iff.mp))
  isNaN_sub h := isNaN_iff.mpr (sub_of_undefined (h.imp isNaN_iff.mp isNaN_iff.mp))
  isNaN_mul h := isNaN_iff.mpr (mul_of_undefined (h.imp isNaN_iff.mp isNaN_iff.mp))
  add_neg_infinity h := by
    obtain ⟨x, rfl⟩ := isFinite_iff.mp h
    rfl
  sub_infinity h := by
    obtain ⟨x, rfl⟩ := isFinite_iff.mp h
    rfl
  neg_infinity_sub h := by
    obtain ⟨x, rfl⟩ := isFinite_iff.mp h
    rfl
  neg_infinity_sub_infinity := rfl
  infinity_sub_infinity := rfl
  mul_infinity_of_neg h hneg := by
    obtain ⟨x, rfl⟩ := isFinite_iff.mp h
    rw [infinity_def, real_mul_above, sign_neg hneg]
    rfl
  isNaN_mul_infinity h hneg hpos := by
    obtain ⟨x, rfl⟩ := isFinite_iff.mp h
    have hx : x = 0 := le_antisymm (not_lt.mp hpos) (not_lt.mp hneg)
    rw [infinity_def, real_mul_above, hx, sign_zero]
    rfl

end Rebalancing
