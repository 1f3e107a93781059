-- SUMMARY: Sums of machine floats commute and a factor of one changes nothing, bit for bit.
import Mathlib
import Rebalancing.Proofs.MachineFloat.Packing

/-!
# Exact laws of machine floats

Few laws of arithmetic survive rounding. A sum does not depend on the order of its two
operands, and a product with one is the other factor. Both hold of the bits, special values
included: what is unpacked of a float is packed into the bits that it was unpacked from,
since only one pattern of bits is valid for the undefined value.
-/

namespace Rebalancing

namespace MachineFloat

open Float.Model (UnpackedFloat Format)
open Float.Model.UnpackedFloat

/-! ## Bits -/

theorem toBitVec_ofBitVec (b : BitVec 1) : (Sign.ofBitVec b).toBitVec = b := by
  rcases BitVec.eq_zero_or_eq_one b with rfl | rfl <;> rfl

/-- A pattern of bits is put together from its parts. -/
theorem packComponents_unpack {b : BitVec Format.binary64.numBits} {e : BitVec 11} {m : BitVec 52}
    (he : unpackExponent b = e) (hm : unpackMantissa b = m) :
    packComponents .binary64 (.ofBitVec (unpackSign b)) e m = b := by
  subst he hm
  have hparts : BitVec.extractLsb' 63 1 b ++ BitVec.extractLsb' 52 11 b ++
      BitVec.extractLsb' 0 52 b = b := by
    rw [BitVec.extractLsb'_append_extractLsb'_eq_extractLsb' (by omega),
      BitVec.extractLsb'_append_extractLsb'_eq_extractLsb' (by omega), BitVec.extractLsb'_eq_self]
  rw [packComponents, toBitVec_ofBitVec]
  exact hparts

/-- What is unpacked of valid bits is packed into these bits. -/
theorem pack_unpack {b : BitVec Format.binary64.numBits} (h : Format.binary64.Valid b) :
    pack .binary64 (unpack .binary64 b) = b := by
  have hbits : (@unpackExponent .binary64 b).toNat < 2048 := BitVec.isLt _
  have hmantissa : (@unpackMantissa .binary64 b).toNat < 2 ^ 52 := BitVec.isLt _
  simp only [unpack]
  split
  next hspecial =>
    split
    next hzero => exact packComponents_unpack hspecial hzero
    next hne => exact (h.eq_packedNaN hspecial hne).symm
  next hfinite =>
    split
    next hleast =>
      split
      next hzero => exact packComponents_unpack hleast hzero
      next hne =>
        have hpos : 0 < (@unpackMantissa .binary64 b).toNat :=
          Nat.pos_of_ne_zero fun heq => hne (BitVec.eq_of_toNat_eq heq)
        have hpack := pack_subnormal (.ofBitVec (unpackSign b)) hpos hmantissa
        rw [BitVec.ofNat_toNat, BitVec.setWidth_eq, packComponents_unpack hleast rfl] at hpack
        convert hpack using 3
        rw [hleast]
        rfl
    next hnormal =>
      have himplicit := toNat_implicit (unpackMantissa b)
      have hexponent : (@unpackExponent .binary64 b).toNat ≠ 2047 :=
        fun heq => hfinite (BitVec.eq_of_toNat_eq heq)
      have hstored : BitVec.ofNat 52 (1#1 ++ @unpackMantissa .binary64 b).toNat =
          unpackMantissa b := by
        refine BitVec.eq_of_toNat_eq ?_
        rw [himplicit, BitVec.toNat_ofNat]
        omega
      have hpos : 0 < (1#1 ++ @unpackMantissa .binary64 b).toNat := by omega
      have hle : (@unpackExponent .binary64 b).toNat < 2047 := by omega
      have hpack := pack_normal (.ofBitVec (unpackSign b)) hpos (by omega) (by omega) hle
      rw [hstored, BitVec.ofNat_toNat, BitVec.setWidth_eq, packComponents_unpack rfl rfl] at hpack
      exact hpack

theorem model_pack_unpack (x : Float.Model) : Float.Model.pack x.unpack = x := by
  obtain ⟨bits, h⟩ := x
  have hbits : pack .binary64 (unpack .binary64 bits.toBitVec) = bits.toBitVec := pack_unpack h
  simp only [Float.Model.pack, Float.Model.unpack, hbits]

/-! ## Values -/

/-- Of two canonical forms of one number neither has the larger exponent. -/
theorem Canonical.exponent_le {m m' : ℕ} {e e' : ℤ} (h : Canonical m e) (h' : Canonical m' e')
    (heq : (m : ℝ) * 2 ^ e = m' * 2 ^ e') : e' ≤ e := by
  by_contra hlt
  obtain ⟨k, rfl⟩ : ∃ k : ℕ, e' = e + (k + 1 : ℕ) := ⟨(e' - e - 1).toNat, by omega⟩
  have hge := h.exponent_ge
  have hfull : 2 ^ 52 ≤ m' := h'.full_or.resolve_right (by omega)
  have hm : m = m' * 2 ^ (k + 1) := by
    rw [zpow_add₀ two_ne_zero, zpow_natCast, mul_left_comm, mul_comm (2 ^ e)] at heq
    exact_mod_cast mul_right_cancel₀ (zpow_ne_zero e two_ne_zero) heq
  have hlarge : 2 ^ 52 * 2 ≤ m :=
    hm ▸ Nat.mul_le_mul hfull (Nat.le_self_pow (Nat.succ_ne_zero k) 2)
  exact h.mantissa_lt.not_ge hlarge

theorem Canonical.eq_of_mul_eq {m m' : ℕ} {e e' : ℤ} (h : Canonical m e) (h' : Canonical m' e')
    (heq : (m : ℝ) * 2 ^ e = m' * 2 ^ e') : m = m' ∧ e = e' := by
  obtain rfl : e = e' := (h'.exponent_le h heq.symm).antisymm (h.exponent_le h' heq)
  exact ⟨by exact_mod_cast mul_right_cancel₀ (zpow_ne_zero e two_ne_zero) heq, rfl⟩

/-- A value other than zero is that of one canonical form. -/
theorem Proper.eq_of_value_eq {u v : UnpackedFloat} (hu : Proper u) (hv : Proper v)
    (heq : value u = value v) (hne : value v ≠ 0) : u = v := by
  rcases hv.cases with ⟨s, rfl⟩ | ⟨s, m, e, hm, rfl, hcanon⟩
  · exact absurd (value_zero s) hne
  rcases hu.cases with ⟨s', rfl⟩ | ⟨s', m', e', hm', rfl, hcanon'⟩
  · exact absurd heq.symm hne
  have hpos := value_pos m e hm
  have hpos' := value_pos m' e' hm'
  rw [value_finite, value_finite] at heq
  have hsame : s' = s ∧ (m' : ℝ) * 2 ^ e' = m * 2 ^ e := by
    cases s <;> cases s' <;> simp only [signed] at heq
    · exact ⟨rfl, neg_injective heq⟩
    · linarith
    · linarith
    · exact ⟨rfl, heq⟩
  obtain ⟨rfl, hmagnitude⟩ := hsame
  obtain ⟨rfl, rfl⟩ := hcanon'.eq_of_mul_eq hcanon hmagnitude
  rfl

/-! ## Sums and products -/

theorem unpacked_add_comm (u v : UnpackedFloat) :
    UnpackedFloat.add .binary64 u v = UnpackedFloat.add .binary64 v u := by
  cases u with
  | notANumber => cases v <;> rfl
  | infinity s =>
    cases v with
    | infinity s' => cases s <;> cases s' <;> rfl
    | _ => rfl
  | zero s =>
    cases v with
    | zero s' => cases s <;> cases s' <;> rfl
    | _ => rfl
  | finite s m e hm =>
    cases v with
    | finite s' m' e' hm' =>
      simp only [UnpackedFloat.add]
      rw [min_comm e e', Int.add_comm (s.apply _)]
    | _ => rfl

/-- A product with one is rounded to the other factor. -/
theorem unpacked_one_mul (x : Float) :
    UnpackedFloat.mul .binary64 (unpacked 1) (unpacked x) = unpacked x := by
  have hone : unpacked 1 = .finite .positive (2 ^ 52) (-52) (by omega) := rfl
  cases hx : unpacked x with
  | notANumber => rfl
  | infinity s => cases s <;> rfl
  | zero s => cases s <;> rfl
  | finite s m e hm =>
    have hfinite : Scalar.isFinite x = true := by
      rw [isFinite_eq, hx]
      rfl
    have hproper : Proper (.finite s m e hm) := hx ▸ (packable_unpacked hfinite).toProper
    have hround := roundsTo_mul (packable_unpacked (x := 1) rfl).toProper hproper
    rw [hone, value_one_parts, one_mul, ← hone] at hround
    have hgrid := onGrid_value hproper
    have hvalue := (hround.value_le _ hgrid le_rfl).antisymm (hround.le_value _ hgrid le_rfl)
    refine hround.toProper.eq_of_value_eq hproper hvalue (abs_pos.mp ?_)
    rw [abs_value_finite]
    exact value_pos m e hm

theorem float_add_comm (x y : Float) : x + y = y + x :=
  congrArg (fun u => Float.ofModel (.pack u)) (unpacked_add_comm (unpacked x) (unpacked y))

theorem float_one_mul (x : Float) : 1 * x = x := by
  have hmodel : Float.Model.pack (UnpackedFloat.mul .binary64 (unpacked 1) (unpacked x)) =
      x.toModel := by
    rw [unpacked_one_mul]
    exact model_pack_unpack x.toModel
  exact congrArg Float.ofModel hmodel

end MachineFloat

end Rebalancing
