-- SUMMARY: Machine floats are rounded scalars: canonical values are packed without loss unless they are too large, and only canonical values are unpacked.
import Mathlib
import Rebalancing.Proofs.MachineFloat.Rounding
import Rebalancing.Proofs.RoundedScalar

/-!
# Packing of machine floats

The bits of a machine float hold every canonical value whose exponent is not too large,
and no other finite one. So unpacking what an operation has packed gives the rounded
value back, as long as it lies between two values that were unpacked.
-/

namespace Rebalancing

namespace MachineFloat

open Float.Model (UnpackedFloat Format)
open Float.Model.UnpackedFloat

/-! ## Values that are unpacked -/

/-- A canonical value that is not too large to be packed. -/
structure Packable (u : UnpackedFloat) : Prop extends Proper u where
  exponent_le : ∀ s m e hm, u = .finite s m e hm → e ≤ 971

/-- The bit that a normal mantissa does not store counts as the highest one. -/
theorem toNat_implicit (m : BitVec 52) : (1#1 ++ m).toNat = 2 ^ 52 + m.toNat := by
  rw [BitVec.toNat_append, ← Nat.shiftLeft_add_eq_or_of_lt m.isLt]
  rfl

theorem unpack_finite {b : BitVec Format.binary64.numBits} {s : Sign} {m : ℕ} {e : ℤ}
    {hm : 0 < m} (h : unpack .binary64 b = .finite s m e hm) : Canonical m e ∧ e ≤ 971 := by
  have hfinite : @unpackExponent .binary64 b ≠ -1#_ :=
    (isFinite_unpack_iff b).mp (by rw [h]; rfl)
  have hexponent : (@unpackExponent .binary64 b).toNat ≠ 2047 :=
    fun heq => hfinite (BitVec.eq_of_toNat_eq heq)
  have hbits : (@unpackExponent .binary64 b).toNat < 2048 := BitVec.isLt _
  have hmantissa : (@unpackMantissa .binary64 b).toNat < 2 ^ 52 := BitVec.isLt _
  simp only [unpack, if_neg hfinite] at h
  split at h
  next hzero =>
    split at h
    · cases h
    · cases h
      rw [hzero]
      exact ⟨⟨by omega, le_rfl, .inr rfl⟩, by decide⟩
  next hnormal =>
    have hpos : (@unpackExponent .binary64 b).toNat ≠ 0 :=
      fun heq => hnormal (BitVec.eq_of_toNat_eq heq)
    cases h
    rw [toNat_implicit]
    simp only [Format.exponentBias]
    refine ⟨⟨by omega, ?_, .inl (by omega)⟩, ?_⟩
    · omega
    · omega

theorem packable_unpack {b : BitVec Format.binary64.numBits}
    (h : (unpack .binary64 b).isFinite = true) : Packable (unpack .binary64 b) :=
  ⟨⟨h, fun _ _ _ _ heq => (unpack_finite heq).1⟩, fun _ _ _ _ heq => (unpack_finite heq).2⟩

/-! ## Values that are packed -/

theorem unpackSign_packComponents {spec : Format} (s : Sign) (e : BitVec spec.exponentBits)
    (m : BitVec spec.mantissaBitsWithoutImplicit) :
    unpackSign (packComponents spec s e m) = s.toBitVec := by
  ext i hi
  obtain rfl : i = 0 := by omega
  simp [unpackSign, packComponents, BitVec.getLsbD_append, BitVec.getElem_append]

theorem ofBitVec_toBitVec (s : Sign) : Sign.ofBitVec s.toBitVec = s := by
  cases s <;> rfl

/-- A mantissa that is not full has the least exponent, and is stored as it is. -/
theorem pack_subnormal (s : Sign) {m : ℕ} (hm : 0 < m) (hlt : m < 2 ^ 52) :
    pack .binary64 (.finite s m (-1074) hm) =
      packComponents .binary64 s 0#11 (BitVec.ofNat 52 m) := by
  have hlog : m.log2 + 1 ≠ Format.binary64.mantissaBits := by
    have hlt' := (Nat.log2_lt hm.ne').mpr hlt
    simp only [Format.mantissaBits]
    omega
  simp only [pack]
  rw [if_neg (by decide), if_neg hlog]

/-- A full mantissa is stored without its highest bit. -/
theorem pack_normal (s : Sign) {m k : ℕ} (hm : 0 < m) (hlt : m < 2 ^ 53) (hfull : 2 ^ 52 ≤ m)
    (hk : k < 2047) :
    pack .binary64 (.finite s m (k - 1075) hm) =
      packComponents .binary64 s (BitVec.ofNat 11 k) (BitVec.ofNat 52 m) := by
  have hlog : m.log2 + 1 = Format.binary64.mantissaBits := by
    have hlt' := (Nat.log2_lt hm.ne').mpr hlt
    have hge' := (Nat.le_log2 hm.ne').mpr hfull
    simp only [Format.mantissaBits]
    omega
  have hbiased : ((k : ℤ) - 1075 + (Format.binary64.exponentBias : ℕ) + (52 : ℕ)).toNat = k := by
    simp only [Format.exponentBias]
    omega
  simp only [pack, hbiased]
  rw [if_neg (by omega), if_pos hlog]

theorem unpack_pack_subnormal (s : Sign) {m : ℕ} (hm : 0 < m) (hlt : m < 2 ^ 52) :
    unpack .binary64 (pack .binary64 (.finite s m (-1074) hm)) = .finite s m (-1074) hm := by
  have hmantissa : (BitVec.ofNat 52 m).toNat = m := by
    rw [BitVec.toNat_ofNat, Nat.mod_eq_of_lt hlt]
  have hne : BitVec.ofNat 52 m ≠ 0#52 := by
    intro h
    rw [h] at hmantissa
    exact hm.ne hmantissa
  rw [pack_subnormal s hm hlt]
  simp only [unpack, unpackExponent_packComponents, unpackMantissa_packComponents,
    unpackSign_packComponents, ofBitVec_toBitVec]
  rw [if_neg (by decide), if_pos trivial, dif_neg hne]
  simp only [hmantissa]
  rfl

theorem unpack_pack_normal (s : Sign) {m : ℕ} {e : ℤ} (hm : 0 < m) (hlt : m < 2 ^ 53)
    (hfull : 2 ^ 52 ≤ m) (hge : -1074 ≤ e) (hle : e ≤ 971) :
    unpack .binary64 (pack .binary64 (.finite s m e hm)) = .finite s m e hm := by
  obtain ⟨k, rfl⟩ : ∃ k : ℕ, e = k - 1075 := ⟨(e + 1075).toNat, by omega⟩
  have hexponent : (BitVec.ofNat 11 k).toNat = k := by
    rw [BitVec.toNat_ofNat, Nat.mod_eq_of_lt (by omega)]
  have hmantissa : (1#1 ++ BitVec.ofNat 52 m).toNat = m := by
    rw [toNat_implicit, BitVec.toNat_ofNat]
    omega
  have hspecial : BitVec.ofNat 11 k ≠ -1#11 := by
    intro h
    rw [h] at hexponent
    have : (-1#11 : BitVec 11).toNat = 2047 := rfl
    omega
  have hzero : BitVec.ofNat 11 k ≠ 0#11 := by
    intro h
    rw [h] at hexponent
    have : (0#11).toNat = 0 := rfl
    omega
  rw [pack_normal s hm hlt hfull (by omega)]
  simp only [unpack, unpackExponent_packComponents, unpackMantissa_packComponents,
    unpackSign_packComponents, ofBitVec_toBitVec]
  rw [if_neg hspecial, if_neg hzero]
  simp only [hmantissa, hexponent]
  congr 1

theorem unpack_pack {u : UnpackedFloat} (h : Packable u) :
    unpack .binary64 (pack .binary64 u) = u := by
  rcases h.cases with ⟨s, rfl⟩ | ⟨s, m, e, hm, rfl, hlt, hge, hfull⟩
  · cases s <;> rfl
  · by_cases hnormal : 2 ^ 52 ≤ m
    · exact unpack_pack_normal s hm hlt hnormal hge (h.exponent_le s m e hm rfl)
    · obtain rfl : e = -1074 := hfull.resolve_left hnormal
      exact unpack_pack_subnormal s hm (not_le.mp hnormal)

/-- Nothing that is not finite is packed as a finite value. -/
theorem isFinite_of_isFinite_unpack_pack {u : UnpackedFloat}
    (h : (unpack .binary64 (pack .binary64 u)).isFinite = true) : u.isFinite = true := by
  cases u with
  | notANumber =>
    exact absurd h (by decide)
  | infinity s =>
    exact absurd h (by cases s <;> decide)
  | _ => rfl

/-! ## Rounded values that are packed -/

theorem onGrid_value {u : UnpackedFloat} (h : Proper u) : OnGrid (value u) := by
  have hpart : ∀ {m : ℕ} {e : ℤ}, Canonical m e → OnGrid (m * (2 : ℝ) ^ e) := by
    intro m e hcanon
    refine ⟨m, e, ?_, hcanon.exponent_ge, by push_cast; rfl⟩
    rw [Nat.abs_cast]
    exact_mod_cast hcanon.mantissa_lt.le
  rcases h.cases with ⟨s, rfl⟩ | ⟨s, m, e, hm, rfl, hcanon⟩
  · exact ⟨0, 0, by norm_num, by norm_num, by simp⟩
  · cases s with
    | positive => exact hpart hcanon
    | negative => exact (hpart hcanon).neg

theorem abs_value_finite (s : Sign) (m : ℕ) (e : ℤ) (hm : 0 < m) :
    |value (.finite s m e hm)| = m * 2 ^ e := by
  have hpos := value_pos m e hm
  cases s with
  | positive => exact abs_of_pos hpos
  | negative => exact (abs_neg _).trans (abs_of_pos hpos)

/-- A canonical value is packable exactly if its size is below the first power of two that
is not. -/
theorem packable_iff {u : UnpackedFloat} (h : Proper u) : Packable u ↔ |value u| < 2 ^ 1024 := by
  rcases h.cases with ⟨s, rfl⟩ | ⟨s, m, e, hm, rfl, hlt, hge, hfull⟩
  · exact ⟨fun _ => by simp, fun _ => ⟨h, fun _ _ _ _ heq => by cases heq⟩⟩
  · rw [abs_value_finite]
    constructor
    · intro hpack
      have hle := hpack.exponent_le s m e hm rfl
      calc (m : ℝ) * 2 ^ e < 2 ^ 53 * 2 ^ e := by
            gcongr
            exact_mod_cast hlt
        _ = 2 ^ (((53 : ℕ) : ℤ) + e) := two_pow_mul_zpow _ _
        _ ≤ 2 ^ ((1024 : ℕ) : ℤ) := zpow_le_zpow_right₀ one_le_two (by omega)
        _ = 2 ^ 1024 := zpow_natCast _ _
    · refine fun hsize => ⟨h, fun s' m' e' hm' heq => ?_⟩
      cases heq
      by_contra hbig
      refine hsize.not_ge ?_
      have hm52 : 2 ^ 52 ≤ m := hfull.resolve_right (by omega)
      calc (2 : ℝ) ^ 1024 = 2 ^ ((1024 : ℕ) : ℤ) := (zpow_natCast _ _).symm
        _ ≤ 2 ^ (((52 : ℕ) : ℤ) + e) := zpow_le_zpow_right₀ one_le_two (by omega)
        _ = 2 ^ 52 * 2 ^ e := (two_pow_mul_zpow _ _).symm
        _ ≤ m * 2 ^ e := by
          gcongr
          exact_mod_cast hm52

/-- What is rounded from between two packable values is packed without loss, and lies
between them. -/
theorem between_unpack_pack {r : ℝ} {u a b : UnpackedFloat} (h : RoundsTo r u) (ha : Packable a)
    (hb : Packable b) (har : value a ≤ r) (hrb : r ≤ value b) :
    unpack .binary64 (pack .binary64 u) = u ∧ value a ≤ value u ∧ value u ≤ value b := by
  have hau := h.le_value _ (onGrid_value ha.toProper) har
  have hub := h.value_le _ (onGrid_value hb.toProper) hrb
  refine ⟨unpack_pack ((packable_iff h.toProper).mpr ?_), hau, hub⟩
  have ha' := abs_lt.mp ((packable_iff ha.toProper).mp ha)
  have hb' := abs_lt.mp ((packable_iff hb.toProper).mp hb)
  exact abs_lt.mpr ⟨ha'.1.trans_le hau, hub.trans_lt hb'.2⟩

/-! ## Machine floats -/

noncomputable instance : RealValued Float where
  value x := value (unpacked x)

section Floats

variable {x y : Float}

theorem value_eq (x : Float) : RealValued.value x = value (unpacked x) := rfl

theorem packable_unpacked (h : Scalar.isFinite x = true) : Packable (unpacked x) :=
  packable_unpack h

/-- What is packed from a rounded value. -/
theorem rounds_of_roundsTo {r : ℝ} {u : UnpackedFloat}
    (hx : unpacked x = unpack .binary64 (pack .binary64 u)) (h : RoundsTo r u) : Rounds r x := by
  intro a b ha hb har hrb
  obtain ⟨hpack, hau, hub⟩ :=
    between_unpack_pack h (packable_unpacked ha) (packable_unpacked hb) har hrb
  rw [isFinite_eq, value_eq, value_eq, value_eq, hx, hpack]
  exact ⟨h.isFinite, hau, hub⟩

theorem value_of_not_isFinite {u : UnpackedFloat} (h : u.isFinite = false) : value u = 0 := by
  cases u with
  | finite s m e hm => cases h
  | _ => rfl

theorem isFinite_unpacked_neg (u : UnpackedFloat) : u.neg.isFinite = u.isFinite := by
  cases u <;> rfl

theorem unpacked_neg (x : Float) :
    unpacked (-x) = unpack .binary64 (pack .binary64 (unpacked x).neg) := rfl

theorem Packable.neg {u : UnpackedFloat} (h : Packable u) : Packable u.neg := by
  rw [packable_iff h.toProper.neg, value_neg, abs_neg]
  exact (packable_iff h.toProper).mp h

/-- The opposite of a float, exactly. -/
theorem isFinite_value_neg (x : Float) :
    (unpacked (-x)).isFinite = (unpacked x).isFinite ∧
      value (unpacked (-x)) = -value (unpacked x) := by
  rw [unpacked_neg]
  cases hx : (unpacked x).isFinite with
  | true =>
    rw [unpack_pack (packable_unpacked hx).neg, value_neg]
    exact ⟨(isFinite_unpacked_neg _).trans hx, rfl⟩
  | false =>
    have hneg : (unpack .binary64 (pack .binary64 (unpacked x).neg)).isFinite = false := by
      by_contra hfinite
      have h := isFinite_of_isFinite_unpack_pack (Bool.not_eq_false _ ▸ hfinite)
      rw [isFinite_unpacked_neg, hx] at h
      cases h
    rw [value_of_not_isFinite hneg, value_of_not_isFinite hx, neg_zero]
    exact ⟨hneg, rfl⟩

theorem compare_zero_iff (hx : (unpacked x).isFinite = true) :
    (x < 0 ↔ value (unpacked x) < 0) ∧ (0 < x ↔ 0 < value (unpacked x)) ∧
      (x ≤ 0 ↔ value (unpacked x) ≤ 0) := by
  have hzero : unpacked 0 = .zero .positive := rfl
  rw [lt_iff_compare, lt_iff_compare, le_iff_compare, hzero]
  rcases (packable_unpacked hx).cases with ⟨s, h⟩ | ⟨s, m, e, hm, h, -⟩
  · rw [h]
    simp [UnpackedFloat.compare]
  · rw [h]
    have hpos := value_pos m e hm
    cases s with
    | positive => simp [UnpackedFloat.compare, value_finite, signed, hpos, hpos.le]
    | negative => simp [UnpackedFloat.compare, value_finite, signed, hpos, hpos.le]

/-- A number of the format that is not too large is exact as a float. -/
theorem exact_of_roundsTo {r : ℝ} {u : UnpackedFloat}
    (hx : unpacked x = unpack .binary64 (pack .binary64 u)) (h : RoundsTo r u) (hgrid : OnGrid r)
    (hsize : |r| < 2 ^ 1024) : (unpacked x).isFinite = true ∧ value (unpacked x) = r := by
  have hvalue : value u = r := (h.value_le _ hgrid le_rfl).antisymm (h.le_value _ hgrid le_rfl)
  have hpack : Packable u := by rwa [packable_iff h.toProper, hvalue]
  rw [hx, unpack_pack hpack]
  exact ⟨h.isFinite, hvalue⟩

/-- The parts of the number one. -/
theorem value_one_parts : value (.finite .positive (2 ^ 52) (-52) (by omega)) = 1 := by
  rw [value_finite, signed]
  norm_num

/-- Small natural numbers are converted, and multiplied by a table's entry for one. -/
theorem ofNat_of_lt {n : ℕ} (h : n < 2 ^ 53) :
    Float.ofNat n = n.toUInt64.toFloat * Float.ofBits 0x3FF0000000000000 := by
  change Float.ofScientific n false 0 = _
  rw [Float.ofScientific, dif_pos ⟨h, Nat.zero_le 22⟩]
  rfl

/-- Large natural numbers are multiplied by a power of ten in the model. -/
theorem unpacked_ofNat_of_ge {n : ℕ} (h : 2 ^ 53 ≤ n) :
    unpacked (Float.ofNat n) = unpack .binary64 (pack .binary64
      (roundWithAccuracy .binary64 .positive (n <<< 53) (-53) .exact)) := by
  have hne : n ≠ 0 := by omega
  have hsmall : ¬ (0 : ℤ) < -(2 ^ Format.binary64.exponentBits + n.log2) := by
    have hpow : (0 : ℤ) < 2 ^ Format.binary64.exponentBits := by positivity
    omega
  have hmodel : UnpackedFloat.ofScientific .binary64 n 0 =
      roundWithAccuracy .binary64 .positive (n <<< 53 * 1) (-53 + 0) .exact := by
    rw [UnpackedFloat.ofScientific, dif_neg hne, if_neg (by decide), if_neg hsmall,
      if_pos le_rfl]
    rfl
  rw [mul_one, add_zero] at hmodel
  change unpacked (Float.ofScientific n false 0) = _
  rw [Float.ofScientific, dif_neg (fun hlt => hlt.1.not_ge h), ← hmodel]
  rfl

/-- A natural number of the format that is not too large is exact as a float. -/
theorem ofNat_exact {n : ℕ} (hgrid : OnGrid n) (hsize : |(n : ℝ)| < 2 ^ 1024) :
    (unpacked (Float.ofNat n)).isFinite = true ∧ value (unpacked (Float.ofNat n)) = n := by
  rcases lt_or_ge n (2 ^ 53) with hlt | hge
  · have hcount : ((n.toUInt64.toNat : ℕ) : ℝ) = n :=
      congrArg Nat.cast (Nat.mod_eq_of_lt (by omega))
    have hround : RoundsTo n (ofUInt64 .binary64 n.toUInt64) := hcount ▸ roundsTo_ofNat _
    obtain ⟨hfinite, hvalue⟩ := exact_of_roundsTo (x := n.toUInt64.toFloat) rfl hround hgrid hsize
    have hone : unpacked (Float.ofBits 0x3FF0000000000000) =
        .finite .positive (2 ^ 52) (-52) (by omega) := rfl
    have hproduct := roundsTo_mul (packable_unpacked hfinite).toProper
      (packable_unpacked (x := Float.ofBits 0x3FF0000000000000) rfl).toProper
    rw [hvalue, hone, value_one_parts, mul_one] at hproduct
    rw [ofNat_of_lt hlt]
    exact exact_of_roundsTo rfl hproduct hgrid hsize
  · have hbits : 2 ^ 52 ≤ n <<< 53 := by
      rw [Nat.shiftLeft_eq]
      omega
    have hvalue := shiftLeft_mul_zpow n 53 0
    rw [zpow_zero, mul_one] at hvalue
    have hround := roundsTo_exact (e := 0 - (53 : ℕ)) .positive (.inl hbits)
    rw [signed, hvalue] at hround
    exact exact_of_roundsTo (unpacked_ofNat_of_ge hge) hround hgrid hsize

theorem count_exact {c j : ℕ} (hc : c ≤ 2 ^ 53) (hj : j ≤ 970) :
    (unpacked (Float.ofNat (c * 2 ^ j))).isFinite = true ∧
      value (unpacked (Float.ofNat (c * 2 ^ j))) = c * 2 ^ j := by
  have hcast : ((c * 2 ^ j : ℕ) : ℝ) = c * 2 ^ j := by push_cast; rfl
  have hc' : (c : ℝ) ≤ 2 ^ 53 := by exact_mod_cast hc
  rw [← hcast]
  refine ofNat_exact ⟨c, j, ?_, by omega, ?_⟩ ?_
  · rw [Nat.abs_cast]
    exact_mod_cast hc
  · rw [hcast, Int.cast_natCast, zpow_natCast]
  · rw [hcast, abs_of_nonneg (by positivity)]
    calc (c : ℝ) * 2 ^ j ≤ 2 ^ 53 * 2 ^ 970 :=
          mul_le_mul hc' (pow_le_pow_right₀ one_le_two hj) (by positivity) (by positivity)
      _ = 2 ^ (53 + 970) := (pow_add ..).symm
      _ < 2 ^ 1024 := pow_lt_pow_right₀ one_lt_two (by omega)

/-! ## Operands of finite results -/

section Operands

variable {u v : UnpackedFloat}

theorem isFinite_of_add (h : (UnpackedFloat.add .binary64 u v).isFinite = true) :
    u.isFinite = true ∧ v.isFinite = true := by
  cases u with
  | notANumber => cases h
  | infinity s =>
    cases v with
    | infinity s' =>
      simp only [UnpackedFloat.add] at h
      split at h <;> cases h
    | _ => cases h
  | zero s =>
    cases v with
    | notANumber => cases h
    | infinity s' => cases h
    | _ => exact ⟨rfl, rfl⟩
  | finite s m e hm =>
    cases v with
    | notANumber => cases h
    | infinity s' => cases h
    | _ => exact ⟨rfl, rfl⟩

theorem isFinite_of_sub (h : (UnpackedFloat.sub .binary64 u v).isFinite = true) :
    u.isFinite = true ∧ v.isFinite = true := by
  rw [sub_eq_add] at h
  obtain ⟨hu, hv⟩ := isFinite_of_add h
  exact ⟨hu, (isFinite_unpacked_neg v).symm.trans hv⟩

theorem isFinite_of_mul (h : (UnpackedFloat.mul .binary64 u v).isFinite = true) :
    u.isFinite = true ∧ v.isFinite = true := by
  cases u with
  | notANumber => cases h
  | infinity s => cases v <;> cases h
  | zero s =>
    cases v with
    | notANumber => cases h
    | infinity s' => cases h
    | _ => exact ⟨rfl, rfl⟩
  | finite s m e hm =>
    cases v with
    | notANumber => cases h
    | infinity s' => cases h
    | _ => exact ⟨rfl, rfl⟩

end Operands

end Floats

end MachineFloat

open MachineFloat in
noncomputable instance : RoundedScalar Float where
  isFinite_zero := by decide
  value_zero := rfl
  isFinite_one := by decide
  value_one := by
    have hone : unpacked 1 = .finite .positive (2 ^ 52) (-52) (by omega) := rfl
    rw [value_eq, hone, value_one_parts]
  isFinite_neg x := (isFinite_value_neg x).1
  value_neg x := (isFinite_value_neg x).2
  lt_zero_iff hx := (compare_zero_iff hx).1
  zero_lt_iff hx := (compare_zero_iff hx).2.1
  le_zero_iff hx := (compare_zero_iff hx).2.2
  rounds_add hx hy :=
    rounds_of_roundsTo rfl
      (roundsTo_add (packable_unpacked hx).toProper (packable_unpacked hy).toProper)
  rounds_sub hx hy :=
    rounds_of_roundsTo rfl
      (roundsTo_sub (packable_unpacked hx).toProper (packable_unpacked hy).toProper)
  rounds_mul hx hy :=
    rounds_of_roundsTo rfl
      (roundsTo_mul (packable_unpacked hx).toProper (packable_unpacked hy).toProper)
  rounds_div hx hy hne :=
    rounds_of_roundsTo rfl
      (roundsTo_div (packable_unpacked hx).toProper (packable_unpacked hy).toProper hne)
  rounds_sqrt hx hnonneg :=
    rounds_of_roundsTo rfl (roundsTo_sqrt (packable_unpacked hx).toProper hnonneg)
  ofCount_exact := count_exact
  isFinite_of_add h := isFinite_of_add (isFinite_of_isFinite_unpack_pack h)
  isFinite_of_sub h := isFinite_of_sub (isFinite_of_isFinite_unpack_pack h)
  isFinite_of_mul h := isFinite_of_mul (isFinite_of_isFinite_unpack_pack h)

/-! ## Logarithms and exponentials -/

/-- The logarithm and the exponential of a platform. IEEE 754 leaves both open. -/
structure Elementary where
  log : Float → Float
  exp : Float → Float

/-- Machine floats of a platform. -/
def MachineFloat.On (_ : Elementary) : Type := Float

namespace Elementary

variable (el : Elementary)

instance : Scalar (MachineFloat.On el) :=
  show Scalar Float from { (inferInstance : Scalar Float) with log := el.log, exp := el.exp }

-- The platform of a program that runs.
example :
    (inferInstance : Scalar (MachineFloat.On ⟨Float.log, Float.exp⟩)) =
      (inferInstance : Scalar Float) := rfl

/-- Neither function has a part in rounding. -/
noncomputable instance : RoundedScalar (MachineFloat.On el) where
  value x := MachineFloat.value (MachineFloat.unpacked x)
  isFinite_zero := RoundedScalar.isFinite_zero (F := Float)
  value_zero := RoundedScalar.value_zero (F := Float)
  isFinite_one := RoundedScalar.isFinite_one (F := Float)
  value_one := RoundedScalar.value_one (F := Float)
  isFinite_neg := RoundedScalar.isFinite_neg (F := Float)
  value_neg := RoundedScalar.value_neg (F := Float)
  lt_zero_iff := RoundedScalar.lt_zero_iff (F := Float)
  zero_lt_iff := RoundedScalar.zero_lt_iff (F := Float)
  le_zero_iff := RoundedScalar.le_zero_iff (F := Float)
  rounds_add := RoundedScalar.rounds_add (F := Float)
  rounds_sub := RoundedScalar.rounds_sub (F := Float)
  rounds_mul := RoundedScalar.rounds_mul (F := Float)
  rounds_div := RoundedScalar.rounds_div (F := Float)
  rounds_sqrt := RoundedScalar.rounds_sqrt (F := Float)
  ofCount_exact := RoundedScalar.ofCount_exact (F := Float)
  isFinite_of_add := RoundedScalar.isFinite_of_add (F := Float)
  isFinite_of_sub := RoundedScalar.isFinite_of_sub (F := Float)
  isFinite_of_mul := RoundedScalar.isFinite_of_mul (F := Float)

end Elementary

end Rebalancing
