-- SUMMARY: Machine floats obey the laws of scalars in order, by their logical model.
import Mathlib
import Rebalancing.Proofs.OrderedScalar

/-!
# Machine floats

The logical model of a machine float unpacks the bits of the operands, computes with
sign, mantissa and exponent, and packs the result. Packing may lose a finite value to an
infinity, but it never makes a value undefined, and it forgets nothing of an absolute
value. Comparisons read a key from an unpacked value, and keys are in a linear order.
-/

namespace Rebalancing

namespace MachineFloat

open Float.Model (UnpackedFloat Format)
open Float.Model.UnpackedFloat

/-! ## Packing -/

section Packing

variable {spec : Format}

theorem isFinite_unpack_iff (b : BitVec spec.numBits) :
    (unpack spec b).isFinite = true ↔ unpackExponent b ≠ -1#_ := by
  have hbits : spec.exponentBits ≠ 0 := spec.he.ne'
  simp only [unpack]
  split
  · split <;> simp [isFinite, *]
  · split
    · split <;> simp [isFinite, *]
    · simp [isFinite, *]

theorem isNaN_of_isFinite {u : UnpackedFloat} (h : u.isFinite = true) : u.isNaN = false := by
  cases u with
  | notANumber => cases h
  | _ => rfl

/-- A finite value is packed as one, or as the infinity of its sign. -/
theorem pack_finite (spec : Format) (s : Sign) (m : ℕ) (e : ℤ) (hm : 0 < m) :
    pack spec (.finite s m e hm) = packedInfinity spec s ∨
      (unpack spec (pack spec (.finite s m e hm))).isFinite = true := by
  rw [isFinite_unpack_iff]
  generalize hu : UnpackedFloat.finite s m e hm = u
  fun_cases pack spec u with
  | case1 => cases hu
  | case2 => cases hu
  | case3 => cases hu
  | case4 s m e hm =>
    cases hu
    exact .inl rfl
  | case5 s m e hm bits exponent hsmall hnormal =>
    refine .inr ?_
    rw [unpackExponent_packComponents, ne_eq, ← BitVec.toNat_inj, BitVec.toNat_ofNat,
      BitVec.neg_one_eq_allOnes, BitVec.toNat_allOnes, Nat.mod_eq_of_lt (by omega)]
    omega
  | case6 s m e hm bits exponent hsmall hnormal =>
    refine .inr ?_
    simp [unpackExponent_packComponents, spec.he.ne']

/-- Packing makes no value undefined, and no other one out of the undefined value. -/
theorem isNaN_unpack_pack (u : UnpackedFloat) : (unpack spec (pack spec u)).isNaN = u.isNaN := by
  have hinfinity : ∀ s, (unpack spec (packedInfinity spec s)).isNaN = false := by
    intro s
    simp [unpack, packedInfinity, isNaN]
  cases u with
  | notANumber => simp [pack]
  | infinity s => exact hinfinity s
  | zero s => simp [pack, isNaN]
  | finite s m e hm =>
    rcases pack_finite spec s m e hm with h | h
    · rw [h]
      exact hinfinity s
    · exact isNaN_of_isFinite h

/-- The exponent of a packed value does not depend on its sign. -/
theorem unpackExponent_pack (s s' : Sign) (m : ℕ) (e : ℤ) (hm : 0 < m) :
    unpackExponent (pack spec (.finite s m e hm)) =
      unpackExponent (pack spec (.finite s' m e hm)) := by
  simp only [pack]
  split
  · simp [packedInfinity]
  · split <;> simp

end Packing

/-! ## Order -/

/-- What is compared of a value that is not undefined: on which side of zero it lies and
whether it is infinite, and then exponent and mantissa, turned over below zero. -/
def key : UnpackedFloat → ℤ ×ₗ ℤ ×ₗ ℤ
  | .notANumber => toLex (0, toLex (0, 0))
  | .infinity .negative => toLex (-2, toLex (0, 0))
  | .finite .negative m e _ => toLex (-1, toLex (-e, -m))
  | .zero _ => toLex (0, toLex (0, 0))
  | .finite .positive m e _ => toLex (1, toLex (e, m))
  | .infinity .positive => toLex (2, toLex (0, 0))

theorem compare_natCast (m n : ℕ) : compare (m : ℤ) (n : ℤ) = compare m n := by
  rcases lt_trichotomy m n with h | rfl | h
  · rw [compare_lt_iff_lt.mpr h, compare_lt_iff_lt.mpr (Int.ofNat_lt.mpr h)]
  · simp
  · rw [compare_gt_iff_gt.mpr h, compare_gt_iff_gt.mpr (Int.ofNat_lt.mpr h)]

theorem compare_neg_neg (a b : ℤ) : compare (-a) (-b) = (compare a b).swap := by
  rcases lt_trichotomy a b with h | rfl | h
  · rw [compare_lt_iff_lt.mpr h, compare_gt_iff_gt.mpr (neg_lt_neg h)]
    rfl
  · simp
  · rw [compare_gt_iff_gt.mpr h, compare_lt_iff_lt.mpr (neg_lt_neg h)]
    rfl

/-- Values that are not undefined compare as their keys do. -/
theorem compare_eq_compare_key {u v : UnpackedFloat} (hu : u.isNaN = false)
    (hv : v.isNaN = false) : u.compare v = some (compare (key u) (key v)) := by
  cases u with
  | notANumber => cases hu
  | infinity s =>
    cases v with
    | notANumber => cases hv
    | infinity s' => cases s <;> cases s' <;> rfl
    | zero s' => cases s <;> rfl
    | finite s' m' e' hm' => cases s <;> cases s' <;> rfl
  | zero s =>
    cases v with
    | notANumber => cases hv
    | infinity s' => cases s' <;> rfl
    | zero s' => rfl
    | finite s' m' e' hm' => cases s' <;> rfl
  | finite s m e hm =>
    cases v with
    | notANumber => cases hv
    | infinity s' => cases s <;> cases s' <;> rfl
    | zero s' => cases s <;> rfl
    | finite s' m' e' hm' =>
      cases s <;> cases s'
      · change some ((compare e e').then (compare m m')).swap =
          some ((compare (-e) (-e')).then (compare (-(m : ℤ)) (-(m' : ℤ))))
        rw [compare_neg_neg, compare_neg_neg, compare_natCast, Ordering.swap_then]
      · rfl
      · rfl
      · change some ((compare e e').then (compare m m')) =
          some ((compare e e').then (compare (m : ℤ) (m' : ℤ)))
        rw [compare_natCast]

section Comparisons

variable {x y : Float}

/-- The unpacked value of a machine float. -/
def unpacked (x : Float) : UnpackedFloat := x.toModel.unpack

theorem isFinite_eq (x : Float) : Scalar.isFinite x = (unpacked x).isFinite := rfl

theorem lt_iff_compare : x < y ↔ (unpacked x).compare (unpacked y) = some .lt := by
  have hmodel : x < y ↔ ((unpacked x).compare (unpacked y) == some .lt) = true :=
    decide_eq_true_iff
  rw [hmodel, beq_iff_eq]

theorem le_iff_compare :
    x ≤ y ↔ ∃ o, (unpacked x).compare (unpacked y) = some o ∧ o.isLE = true := by
  have hmodel : x ≤ y ↔ ((unpacked x).compare (unpacked y)).any (·.isLE) = true :=
    decide_eq_true_iff
  rw [hmodel, Option.any_eq_true]

theorem isNaN_of_lt (h : x < y) : (unpacked x).isNaN = false ∧ (unpacked y).isNaN = false := by
  rw [lt_iff_compare] at h
  constructor
  · cases hx : unpacked x with
    | notANumber =>
      rw [hx] at h
      cases h
    | _ => rfl
  · cases hy : unpacked y with
    | notANumber =>
      rw [hy] at h
      cases hx : unpacked x <;> rw [hx] at h <;> cases h
    | _ => rfl

section Keys

variable (hx : (unpacked x).isNaN = false) (hy : (unpacked y).isNaN = false)

include hx hy

theorem lt_iff_key : x < y ↔ key (unpacked x) < key (unpacked y) := by
  rw [lt_iff_compare, compare_eq_compare_key hx hy, Option.some_inj, compare_lt_iff_lt]

theorem le_iff_key : x ≤ y ↔ key (unpacked x) ≤ key (unpacked y) := by
  rw [le_iff_compare, compare_eq_compare_key hx hy]
  simp [← compare_le_iff_le, Ordering.isLE_iff_ne_gt]

end Keys

end Comparisons

/-! ## Arithmetic -/

section Arithmetic

/-- Rounding gives a finite value, though it may be too large to be packed as one. -/
theorem isNaN_roundWithAccuracy (spec : Format) (s : Sign) (m : ℕ) (e : ℤ) (a : Accuracy) :
    (roundWithAccuracy spec s m e a).isNaN = false := by
  simp only [roundWithAccuracy]
  split <;> rfl

theorem isNaN_normalize (spec : Format) (m e : ℤ) (s : Sign) :
    (UnpackedFloat.normalize spec m e s).isNaN = false := by
  unfold UnpackedFloat.normalize
  split
  · exact isNaN_roundWithAccuracy ..
  · rfl
  · exact isNaN_roundWithAccuracy ..

theorem isNaN_abs (u : UnpackedFloat) : u.abs.isNaN = u.isNaN := by
  cases u <;> rfl

theorem isNaN_sub (spec : Format) {u v : UnpackedFloat} (hu : u.isFinite = true)
    (hv : v.isFinite = true) : (UnpackedFloat.sub spec u v).isNaN = false := by
  cases u with
  | notANumber => cases hu
  | infinity s => cases hu
  | zero s =>
    cases v with
    | notANumber => cases hv
    | infinity s' => cases hv
    | zero s' =>
      simp only [UnpackedFloat.sub]
      split <;> rfl
    | finite s' m' e' hm' => rfl
  | finite s m e hm =>
    cases v with
    | notANumber => cases hv
    | infinity s' => cases hv
    | zero s' => rfl
    | finite s' m' e' hm' => exact isNaN_normalize ..

/-- A product is undefined only where a factor is, or one is zero and the other infinite. -/
theorem isNaN_mul_finite (spec : Format) {u : UnpackedFloat} (hu : u.isNaN = false) (s : Sign)
    (m : ℕ) (e : ℤ) (hm : 0 < m) : (UnpackedFloat.mul spec u (.finite s m e hm)).isNaN = false := by
  cases u with
  | notANumber => cases hu
  | infinity s' => rfl
  | zero s' => rfl
  | finite s' m' e' hm' => exact isNaN_roundWithAccuracy ..

theorem exists_finite_of_pos {x : Float} (hfinite : Scalar.isFinite x = true) (hpos : 0 < x) :
    ∃ s m e hm, unpacked x = .finite s m e hm := by
  have hzero : unpacked 0 = .zero .positive := rfl
  rw [lt_iff_compare, hzero] at hpos
  rw [isFinite_eq] at hfinite
  cases hx : unpacked x with
  | notANumber =>
    rw [hx] at hfinite
    cases hfinite
  | infinity s =>
    rw [hx] at hfinite
    cases hfinite
  | zero s =>
    rw [hx] at hpos
    cases hpos
  | finite s m e hm => exact ⟨s, m, e, hm, rfl⟩

/-- An absolute value has the exponent of the value itself. -/
theorem isFinite_unpack_pack_abs {spec : Format} {b : BitVec spec.numBits} (hvalid : spec.Valid b)
    (hspec : 2 ≤ spec.exponentBits) (h : (unpack spec b).isFinite = true) :
    (unpack spec (pack spec (unpack spec b).abs)).isFinite = true := by
  have hpack := pack_unpack_of_valid hvalid hspec
  cases hb : unpack spec b with
  | notANumber =>
    rw [hb] at h
    cases h
  | infinity s =>
    rw [hb] at h
    cases h
  | zero s => simp [UnpackedFloat.abs, pack, isFinite]
  | finite s m e hm =>
    rw [isFinite_unpack_iff] at h ⊢
    rw [hb] at hpack
    rwa [UnpackedFloat.abs, unpackExponent_pack _ s, hpack]

end Arithmetic

end MachineFloat

open MachineFloat in
instance : OrderedScalar Float where
  isNaN_of_isFinite h := MachineFloat.isNaN_of_isFinite h
  isFinite_zero := by decide
  isFinite_one := by decide
  zero_lt_one := by decide
  lt_trans {x y z} hxy hyz := by
    obtain ⟨hx, hy⟩ := isNaN_of_lt hxy
    obtain ⟨-, hz⟩ := isNaN_of_lt hyz
    rw [lt_iff_key hx hy] at hxy
    rw [lt_iff_key hy hz] at hyz
    exact (lt_iff_key hx hz).mpr (hxy.trans hyz)
  not_lt_iff {x y} hx hy := by
    rw [lt_iff_key hx hy, le_iff_key hy hx, not_lt]
  isFinite_abs {x} h := isFinite_unpack_pack_abs x.toModel.valid (by decide) h
  isNaN_abs h := (isNaN_unpack_pack _).trans ((isNaN_abs _).trans h)
  isNaN_sub hx hy := (isNaN_unpack_pack _).trans (MachineFloat.isNaN_sub _ hx hy)
  isNaN_mul hx hy hpos := by
    obtain ⟨s, m, e, hm, hunpacked⟩ := exists_finite_of_pos hy hpos
    have hproduct := isNaN_mul_finite .binary64 hx s m e hm
    rw [← hunpacked] at hproduct
    exact (isNaN_unpack_pack _).trans hproduct

end Rebalancing
