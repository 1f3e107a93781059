-- SUMMARY: What the rounding of a machine float makes of a real number: a canonical value, and no number of the format lies between the two.
import Mathlib
import Rebalancing.Proofs.MachineFloat

/-!
# Rounding of machine floats

An operation on machine floats computes a mantissa and an exponent that describe the
exact result from below, shifts the mantissa to the width of the format, and moves it
up by one or not at all. The residual bits of the shift tell whether anything was cut
off. That is enough to place the outcome: a number of the format that is not above the
exact result is not above the outcome either, and likewise from the other side.
-/

namespace Rebalancing

namespace MachineFloat

open Float.Model (UnpackedFloat Format totalExponent)
open Float.Model.UnpackedFloat

/-! ## Numbers of the format -/

/-- A magnitude with a sign. -/
def signed : Sign → ℝ → ℝ
  | .negative, r => -r
  | .positive, r => r

/-- The real number that a finite value stands for. -/
noncomputable def value : UnpackedFloat → ℝ
  | .finite s m e _ => signed s (m * ((2 : ℕ) : ℝ) ^ e)
  | _ => 0

theorem value_finite (s : Sign) {m : ℕ} (e : ℤ) (hm : 0 < m) :
    value (.finite s m e hm) = signed s (m * 2 ^ e) := by
  rw [value, Nat.cast_ofNat]

@[simp] theorem value_zero (s : Sign) : value (.zero s) = 0 := rfl

/-- A number with a mantissa of at most 53 bits and an exponent that is not too small. -/
structure OnGrid (a : ℝ) : Prop where
  exists_eq : ∃ c j : ℤ, |c| ≤ 2 ^ 53 ∧ -1074 ≤ j ∧ a = c * 2 ^ j

/-- The mantissa fills the width of the format, or the exponent is the least one. -/
structure Canonical (m : ℕ) (e : ℤ) : Prop where
  mantissa_lt : m < 2 ^ 53
  exponent_ge : -1074 ≤ e
  full_or : 2 ^ 52 ≤ m ∨ e = -1074

/-- A finite value in the form of the format. -/
structure Proper (u : UnpackedFloat) : Prop where
  isFinite : u.isFinite = true
  canonical : ∀ s m e hm, u = .finite s m e hm → Canonical m e

/-- A value to which a number may be rounded: no number of the format lies strictly
between the two. -/
structure RoundsTo (r : ℝ) (u : UnpackedFloat) : Prop extends Proper u where
  le_value : ∀ a, OnGrid a → a ≤ r → a ≤ value u
  value_le : ∀ a, OnGrid a → r ≤ a → value u ≤ a

theorem two_pow_mul_zpow (n : ℕ) (e : ℤ) : (2 : ℝ) ^ n * 2 ^ e = 2 ^ ((n : ℤ) + e) := by
  rw [zpow_add₀ two_ne_zero, zpow_natCast]

theorem OnGrid.neg {a : ℝ} (h : OnGrid a) : OnGrid (-a) := by
  obtain ⟨c, j, hc, hj, rfl⟩ := h
  exact ⟨-c, j, by rwa [abs_neg], hj, by push_cast; ring⟩

/-! ## Residual bits -/

/-- The mantissa is the integral part of a number, and residual bits are set only where
the number exceeds it. -/
structure Truncates (em : ExtendedMantissa) (y : ℝ) : Prop where
  le : em.mantissa ≤ y
  lt : y < em.mantissa + 1
  inexact : (em.roundBit || em.stickyBit) = true → (em.mantissa : ℝ) < y

namespace Truncates

variable {em : ExtendedMantissa} {y : ℝ}

theorem shiftRightOne (h : Truncates em y) : Truncates em.shiftRightOne (y / 2) := by
  have hdiv : 2 * (em.mantissa / 2) + em.mantissa % 2 = em.mantissa := Nat.div_add_mod _ 2
  have hcast : 2 * ((em.mantissa / 2 : ℕ) : ℝ) + ((em.mantissa % 2 : ℕ) : ℝ) = em.mantissa := by
    exact_mod_cast hdiv
  have hrest : ((em.mantissa % 2 : ℕ) : ℝ) ≤ 1 := by
    exact_mod_cast Nat.le_of_lt_succ (Nat.mod_lt _ two_pos)
  have hle := h.le
  have hlt := h.lt
  refine ⟨?_, ?_, fun hbits => ?_⟩
  · change ((em.mantissa / 2 : ℕ) : ℝ) ≤ y / 2
    linarith [Nat.cast_nonneg (α := ℝ) (em.mantissa % 2)]
  · change y / 2 < ((em.mantissa / 2 : ℕ) : ℝ) + 1
    linarith
  · change ((em.mantissa / 2 : ℕ) : ℝ) < y / 2
    change (em.mantissa % 2 != 0 || (em.roundBit || em.stickyBit)) = true at hbits
    rcases Bool.or_eq_true_iff.mp hbits with hodd | hold
    · have hone : em.mantissa % 2 = 1 := by
        have := Nat.mod_lt em.mantissa two_pos
        simp only [bne_iff_ne] at hodd
        omega
      rw [hone, Nat.cast_one] at hcast
      linarith
    · linarith [h.inexact hold, Nat.cast_nonneg (α := ℝ) (em.mantissa % 2)]

theorem shiftRight (h : Truncates em y) (n : ℕ) : Truncates (em >>> n) (y / 2 ^ n) := by
  induction n with
  | zero => simpa [HShiftRight.hShiftRight, Nat.repeat] using h
  | succ n ih =>
    rw [pow_succ, ← div_div]
    exact ih.shiftRightOne

/-- Rounding keeps the mantissa, or moves it up where something was cut off. -/
theorem roundedMantissa_cases (h : Truncates em y) :
    em.roundedMantissa = em.mantissa ∨
      em.roundedMantissa = em.mantissa + 1 ∧ (em.mantissa : ℝ) < y := by
  have hinexact := h.inexact
  obtain ⟨m, round, sticky⟩ := em
  cases round with
  | false => cases sticky <;> exact .inl rfl
  | true =>
    have hlt : (m : ℝ) < y := hinexact rfl
    cases sticky with
    | true => exact .inr ⟨rfl, hlt⟩
    | false =>
      change m + m % 2 = m ∨ m + m % 2 = m + 1 ∧ _
      rcases Nat.mod_two_eq_zero_or_one m with heven | hodd
      · exact .inl (by rw [heven, add_zero])
      · exact .inr ⟨by rw [hodd], hlt⟩

end Truncates

/-- A mantissa and an accuracy describe a number that they are not above. -/
theorem truncates_ofMantissaAndAccuracy {m : ℕ} {y : ℝ} (hle : m ≤ y) (hlt : y < m + 1)
    {acc : Accuracy} (hacc : acc ≠ .exact → (m : ℝ) < y) :
    Truncates (ExtendedMantissa.ofMantissaAndAccuracy m acc) y := by
  cases acc with
  | exact => exact ⟨hle, hlt, fun h => absurd h Bool.false_ne_true⟩
  | inexact o => cases o <;> exact ⟨hle, hlt, fun _ => hacc (by simp)⟩

/-! ## Signs -/

theorem value_neg (u : UnpackedFloat) : value u.neg = -value u := by
  cases u with
  | finite s m e hm =>
    cases s
    · exact (neg_neg _).symm
    · rfl
  | _ => simp [UnpackedFloat.neg, value]

/-! ## Gaps of the grid -/

/-- Between two neighbouring multiples of a power of two there is no number of the format,
if the mantissa of the lower one is full or the power is the least one. -/
theorem OnGrid.le_or_le {a : ℝ} (ha : OnGrid a) {q : ℕ} {t : ℤ}
    (hfull : 2 ^ 52 ≤ q ∨ t = -1074) : a ≤ q * (2 : ℝ) ^ t ∨ (q + 1) * (2 : ℝ) ^ t ≤ a := by
  obtain ⟨c, j, hc, hj, rfl⟩ := ha
  have hpow : (0 : ℝ) < 2 ^ t := by positivity
  by_cases hjt : t ≤ j
  · -- The number is a multiple as well.
    have hsplit : (c : ℝ) * 2 ^ j = (c * 2 ^ (j - t).toNat : ℤ) * (2 : ℝ) ^ t := by
      have hexp : j = ((j - t).toNat : ℤ) + t := by omega
      conv_lhs => rw [hexp, zpow_add₀ two_ne_zero, zpow_natCast]
      push_cast
      ring
    rw [hsplit]
    rcases le_or_gt (c * 2 ^ (j - t).toNat) (q : ℤ) with hle | hlt
    · refine .inl (mul_le_mul_of_nonneg_right ?_ hpow.le)
      exact_mod_cast hle
    · refine .inr (mul_le_mul_of_nonneg_right ?_ hpow.le)
      exact_mod_cast hlt
  · -- The number has less than half the power, so it is not above the full mantissa.
    refine .inl ?_
    have hq : 2 ^ 52 ≤ q := hfull.resolve_right (by omega)
    have hhalf : (2 : ℝ) ^ j ≤ 2 ^ (t - 1) := zpow_le_zpow_right₀ one_le_two (by omega)
    have hc' : (c : ℝ) ≤ 2 ^ 53 := by exact_mod_cast (abs_le.mp hc).2
    calc (c : ℝ) * 2 ^ j ≤ 2 ^ 53 * 2 ^ (t - 1) := by gcongr
      _ = 2 ^ 52 * 2 ^ t := by
        rw [zpow_sub_one₀ two_ne_zero]
        ring
      _ ≤ q * 2 ^ t := by
        gcongr
        exact_mod_cast hq

/-! ## Shifts -/

theorem targetExponent_binary64 (k : ℤ) :
    Format.binary64.targetExponent k = max (k - 53) (-1074) := rfl

theorem targetExponent_eq (m : ℕ) (e : ℤ) :
    Format.binary64.targetExponent (totalExponent m e) = max (m.log2 + e - 52) (-1074) := by
  rw [targetExponent_binary64, totalExponent]
  congr 1
  ring

/-- A mantissa that fits stays where it is. -/
theorem shiftToTargetExponent_of_lt {m : ℕ} {e : ℤ} (hm : m < 2 ^ 53) (he : -1074 ≤ e) :
    shiftToTargetExponent .binary64 m e .exact = (⟨m, false, false⟩, e) := by
  have hlog : m.log2 ≤ 52 := by
    rcases eq_or_ne m 0 with rfl | hne
    · simp
    · exact Nat.le_of_lt_succ ((Nat.log2_lt hne).mpr hm)
  have hshift : (max ((m.log2 : ℤ) + e - 52) (-1074) - e).toNat = 0 := by omega
  simp [shiftToTargetExponent, targetExponent_eq, shiftToExponent, hshift,
    HShiftRight.hShiftRight, Nat.repeat, ExtendedMantissa.ofMantissaAndAccuracy]

/-- A mantissa that has grown by one bit is halved. -/
theorem shiftToTargetExponent_carry {e : ℤ} (he : -1074 ≤ e) :
    shiftToTargetExponent .binary64 (2 ^ 53) e .exact = (⟨2 ^ 52, false, false⟩, e + 1) := by
  have hshift : (max (((2 ^ 53 : ℕ).log2 : ℤ) + e - 52) (-1074) - e).toNat = 1 := by
    rw [Nat.log2_two_pow]
    omega
  rw [shiftToTargetExponent, targetExponent_eq, shiftToExponent, hshift]
  rfl

/-! ## Rounding -/

/-- The finite value of a sign, mantissa and exponent. -/
def ofParts (s : Sign) (m : ℕ) (e : ℤ) : UnpackedFloat :=
  if h : m = 0 then .zero s else .finite s m e (Nat.pos_of_ne_zero h)

theorem value_ofParts (s : Sign) (m : ℕ) (e : ℤ) :
    value (ofParts s m e) = signed s (m * (2 : ℝ) ^ e) := by
  rcases eq_or_ne m 0 with rfl | hne
  · cases s <;> simp [ofParts, value, signed]
  · simp [ofParts, hne, value]

theorem proper_zero (s : Sign) : Proper (.zero s) :=
  ⟨rfl, fun _ _ _ _ h => by cases h⟩

theorem proper_ofParts (s : Sign) {m : ℕ} {e : ℤ} (h : Canonical m e) :
    Proper (ofParts s m e) := by
  unfold ofParts
  split
  · exact proper_zero s
  · refine ⟨rfl, fun s' m' e' hm' heq => ?_⟩
    cases heq
    exact h

/-- Rounding shifts, rounds the mantissa, and shifts once more. -/
theorem roundWithAccuracy_eq (s : Sign) (m : ℕ) (e : ℤ) (acc : Accuracy) :
    roundWithAccuracy .binary64 s m e acc =
      let first := shiftToTargetExponent .binary64 m e acc
      let second := shiftToTargetExponent .binary64 first.1.roundedMantissa first.2 .exact
      ofParts s second.1.mantissa second.2 := rfl

section Rounding

variable {m : ℕ} {e : ℤ} {acc : Accuracy} {r : ℝ}

/-- At the exponent of the format a number is below the first power of two beyond the
mantissa. -/
theorem div_lt_two_pow {t : ℤ} (hlt : r < (m + 1) * (2 : ℝ) ^ e) (ht : m.log2 + e - 52 ≤ t) :
    r / 2 ^ t < 2 ^ 53 := by
  have hm : (m : ℝ) + 1 ≤ 2 ^ (m.log2 + 1) := by exact_mod_cast Nat.lt_log2_self
  rw [div_lt_iff₀ (by positivity)]
  calc r < (m + 1) * 2 ^ e := hlt
    _ ≤ 2 ^ (m.log2 + 1) * 2 ^ e := by gcongr
    _ = 2 ^ (((m.log2 + 1 : ℕ) : ℤ) + e) := two_pow_mul_zpow _ _
    _ ≤ 2 ^ (((53 : ℕ) : ℤ) + t) := zpow_le_zpow_right₀ one_le_two (by omega)
    _ = 2 ^ 53 * 2 ^ t := (two_pow_mul_zpow _ _).symm

/-- Nor is it below the power of two that fills the mantissa, unless the exponent is the least. -/
theorem two_pow_le_div {t : ℤ} (hle : m * (2 : ℝ) ^ e ≤ r) (hm : m ≠ 0)
    (ht : m.log2 + e - 52 = t) : 2 ^ 52 ≤ r / 2 ^ t := by
  have hlog : (2 : ℝ) ^ m.log2 ≤ m := by exact_mod_cast Nat.log2_self_le hm
  have hexponent : ((52 : ℕ) : ℤ) + t = m.log2 + e := by omega
  rw [le_div_iff₀ (by positivity)]
  calc (2 : ℝ) ^ 52 * 2 ^ t = 2 ^ (((52 : ℕ) : ℤ) + t) := two_pow_mul_zpow _ _
    _ = 2 ^ ((m.log2 : ℤ) + e) := by rw [hexponent]
    _ = 2 ^ m.log2 * 2 ^ e := (two_pow_mul_zpow _ _).symm
    _ ≤ m * 2 ^ e := by gcongr
    _ ≤ r := hle

/-- What the first shift leaves: a mantissa that fits, cut off from the number. -/
theorem truncates_shiftToTargetExponent (hle : m * (2 : ℝ) ^ e ≤ r)
    (hlt : r < (m + 1) * (2 : ℝ) ^ e) (hacc : acc ≠ .exact → m * (2 : ℝ) ^ e < r)
    (hbits : 2 ^ 52 ≤ m ∨ e ≤ -1074) :
    ∃ em t, shiftToTargetExponent .binary64 m e acc = (em, t) ∧ Truncates em (r / 2 ^ t) ∧
      Canonical em.mantissa t := by
  have hpow : (0 : ℝ) < 2 ^ e := by positivity
  have hlog : 2 ^ 52 ≤ m → 52 ≤ m.log2 := fun h => (Nat.le_log2 (by omega)).mpr h
  obtain ⟨k, hk⟩ : ∃ k : ℕ, max ((m.log2 : ℤ) + e - 52) (-1074) = e + k :=
    ⟨(max ((m.log2 : ℤ) + e - 52) (-1074) - e).toNat, by omega⟩
  have hshift : shiftToTargetExponent .binary64 m e acc =
      (ExtendedMantissa.ofMantissaAndAccuracy m acc >>> k, e + k) := by
    simp only [shiftToTargetExponent, targetExponent_eq, hk, shiftToExponent, add_sub_cancel_left,
      Int.toNat_natCast]
  refine ⟨_, _, hshift, ?_⟩
  have hstart : Truncates (ExtendedMantissa.ofMantissaAndAccuracy m acc) (r / 2 ^ e) :=
    truncates_ofMantissaAndAccuracy ((le_div_iff₀ hpow).mpr hle) ((div_lt_iff₀ hpow).mpr hlt)
      fun h => (lt_div_iff₀ hpow).mpr (hacc h)
  have htrunc :
      Truncates (ExtendedMantissa.ofMantissaAndAccuracy m acc >>> k) (r / 2 ^ (e + k)) := by
    rw [zpow_add₀ two_ne_zero, zpow_natCast, ← div_div]
    exact hstart.shiftRight k
  refine ⟨htrunc, ?_, by omega, ?_⟩
  · exact_mod_cast htrunc.le.trans_lt (div_lt_two_pow hlt (by omega))
  · by_cases hmin : e + k = -1074
    · exact .inr hmin
    · -- Otherwise the number has as many bits as the mantissa holds.
      have hfull : 2 ^ 52 ≤ m := by
        by_contra hsmall
        have hsmall' : m.log2 < 52 := by
          rcases eq_or_ne m 0 with rfl | hne
          · simp
          · exact (Nat.log2_lt hne).mpr (by omega)
        omega
      have hbound : (2 : ℝ) ^ 52 ≤ r / 2 ^ (e + k) := two_pow_le_div hle (by omega) (by omega)
      refine .inl (Nat.le_of_lt_succ ?_)
      exact_mod_cast hbound.trans_lt htrunc.lt

/-- The second shift changes the form of a rounded mantissa and not its value. -/
theorem exists_roundWithAccuracy_eq {em : ExtendedMantissa} {t : ℤ} (s : Sign)
    (hshift : shiftToTargetExponent .binary64 m e acc = (em, t))
    (hcanon : Canonical em.mantissa t)
    (hup : em.roundedMantissa = em.mantissa ∨ em.roundedMantissa = em.mantissa + 1) :
    ∃ M E, roundWithAccuracy .binary64 s m e acc = ofParts s M E ∧ Canonical M E ∧
      M * (2 : ℝ) ^ E = em.roundedMantissa * 2 ^ t := by
  obtain ⟨hlt, hge, hfull⟩ := hcanon
  rw [roundWithAccuracy_eq, hshift]
  dsimp only
  by_cases hcarry : em.roundedMantissa = 2 ^ 53
  · rw [hcarry, shiftToTargetExponent_carry hge]
    refine ⟨2 ^ 52, t + 1, rfl, ⟨by norm_num, by omega, .inl le_rfl⟩, ?_⟩
    rw [zpow_add_one₀ two_ne_zero]
    push_cast
    ring
  · rw [shiftToTargetExponent_of_lt (by omega) hge]
    exact ⟨em.roundedMantissa, t, rfl, ⟨by omega, hge, by omega⟩, rfl⟩

/-- A number that is described from below is rounded. -/
theorem roundsTo_roundWithAccuracy (hle : m * (2 : ℝ) ^ e ≤ r)
    (hlt : r < (m + 1) * (2 : ℝ) ^ e) (hacc : acc ≠ .exact → m * (2 : ℝ) ^ e < r)
    (hbits : 2 ^ 52 ≤ m ∨ e ≤ -1074) :
    RoundsTo r (roundWithAccuracy .binary64 .positive m e acc) := by
  obtain ⟨em, t, hshift, htrunc, hcanon⟩ := truncates_shiftToTargetExponent hle hlt hacc hbits
  have hpow : (0 : ℝ) < 2 ^ t := by positivity
  have hfloor : em.mantissa * (2 : ℝ) ^ t ≤ r := (le_div_iff₀ hpow).mp htrunc.le
  have hceil : r < (em.mantissa + 1) * (2 : ℝ) ^ t := (div_lt_iff₀ hpow).mp htrunc.lt
  have hup := htrunc.roundedMantissa_cases
  obtain ⟨M, E, hround, hcanon', hvalue⟩ :=
    exists_roundWithAccuracy_eq .positive hshift hcanon (hup.imp_right And.left)
  rw [hround]
  have hparts : value (ofParts .positive M E) = em.roundedMantissa * 2 ^ t :=
    (value_ofParts _ _ _).trans hvalue
  refine ⟨proper_ofParts _ hcanon', fun a ha har => ?_, fun a ha hra => ?_⟩
  · -- A number of the format up to `r` is at most the floor or not below the ceiling.
    rw [hparts]
    have hbelow : a ≤ em.mantissa * (2 : ℝ) ^ t :=
      (ha.le_or_le hcanon.full_or).resolve_right fun h => (h.trans har).not_gt hceil
    rcases hup with hkeep | ⟨hkeep, -⟩
    · rwa [hkeep]
    · rw [hkeep]
      exact hbelow.trans (mul_le_mul_of_nonneg_right (by simp) hpow.le)
  · rw [hparts]
    rcases hup with hkeep | ⟨hkeep, hinexact⟩
    · rw [hkeep]
      exact hfloor.trans hra
    · have hfloor' : em.mantissa * (2 : ℝ) ^ t < r := (lt_div_iff₀ hpow).mp hinexact
      rw [hkeep, Nat.cast_succ]
      exact (ha.le_or_le hcanon.full_or).resolve_left fun h => (hra.trans h).not_gt hfloor'

end Rounding

/-! ## Rounding with a sign -/

/-- Cases of a finite value. -/
theorem Proper.cases {u : UnpackedFloat} (h : Proper u) :
    (∃ s, u = .zero s) ∨ ∃ s m e hm, u = .finite s m e hm ∧ Canonical m e := by
  have hfinite := h.isFinite
  cases u with
  | zero s => exact .inl ⟨s, rfl⟩
  | finite s m e hm => exact .inr ⟨s, m, e, hm, rfl, h.canonical s m e hm rfl⟩
  | _ => cases hfinite

theorem Proper.neg {u : UnpackedFloat} (h : Proper u) : Proper u.neg := by
  rcases h.cases with ⟨s, rfl⟩ | ⟨s, m, e, hm, rfl, hcanon⟩
  · exact proper_zero (-s)
  · refine ⟨rfl, fun s' m' e' hm' heq => ?_⟩
    cases heq
    exact hcanon

theorem Proper.roundsTo {u : UnpackedFloat} (h : Proper u) : RoundsTo (value u) u :=
  ⟨h, fun _ _ h => h, fun _ _ h => h⟩

theorem RoundsTo.neg {r : ℝ} {u : UnpackedFloat} (h : RoundsTo r u) : RoundsTo (-r) u.neg where
  toProper := h.toProper.neg
  le_value a ha har := by
    rw [value_neg]
    exact le_neg_of_le_neg (h.value_le _ ha.neg (le_neg_of_le_neg har))
  value_le a ha hra := by
    rw [value_neg]
    exact neg_le_of_neg_le (h.le_value _ ha.neg (neg_le_of_neg_le hra))

theorem neg_ofParts (m : ℕ) (e : ℤ) : (ofParts .positive m e).neg = ofParts .negative m e := by
  unfold ofParts
  split <;> rfl

section Signed

variable {m : ℕ} {e : ℤ} {acc : Accuracy} {r : ℝ} (s : Sign)

theorem roundsTo_signed (hle : m * (2 : ℝ) ^ e ≤ r) (hlt : r < (m + 1) * (2 : ℝ) ^ e)
    (hacc : acc ≠ .exact → m * (2 : ℝ) ^ e < r) (hbits : 2 ^ 52 ≤ m ∨ e ≤ -1074) :
    RoundsTo (signed s r) (roundWithAccuracy .binary64 s m e acc) := by
  have hpos := roundsTo_roundWithAccuracy hle hlt hacc hbits
  cases s with
  | positive => exact hpos
  | negative =>
    rw [roundWithAccuracy_eq] at hpos ⊢
    dsimp only at hpos ⊢
    rw [← neg_ofParts]
    exact hpos.neg

/-- A number that is given exactly is rounded. -/
theorem roundsTo_exact (hbits : 2 ^ 52 ≤ m ∨ e ≤ -1074) :
    RoundsTo (signed s (m * (2 : ℝ) ^ e)) (roundWithAccuracy .binary64 s m e .exact) :=
  have hpow : (0 : ℝ) < 2 ^ e := by positivity
  roundsTo_signed s le_rfl (by linarith) (fun h => absurd rfl h) hbits

end Signed

/-! ## Normalization -/

theorem shiftLeft_mul_zpow (m k : ℕ) (e : ℤ) :
    ((m <<< k : ℕ) : ℝ) * (2 : ℝ) ^ (e - k) = m * 2 ^ e := by
  rw [Nat.shiftLeft_eq]
  push_cast
  rw [mul_assoc, two_pow_mul_zpow, add_sub_cancel]

theorem two_pow_le_shiftLeft {m k n : ℕ} (hm : m ≠ 0) (h : n ≤ m.log2 + k) : 2 ^ n ≤ m <<< k := by
  calc 2 ^ n ≤ 2 ^ (m.log2 + k) := Nat.pow_le_pow_right two_pos h
    _ = 2 ^ m.log2 * 2 ^ k := pow_add ..
    _ ≤ m * 2 ^ k := Nat.mul_le_mul_right _ (Nat.log2_self_le hm)
    _ = m <<< k := (Nat.shiftLeft_eq ..).symm

theorem roundsTo_round (s : Sign) {m : ℕ} (hm : m ≠ 0) (e : ℤ) :
    RoundsTo (signed s (m * (2 : ℝ) ^ e)) (UnpackedFloat.round .binary64 s m e) := by
  rw [UnpackedFloat.round, targetExponent_eq, decreaseExponent]
  dsimp only
  rw [← shiftLeft_mul_zpow m (e - max ((m.log2 : ℤ) + e - 52) (-1074)).toNat e]
  refine roundsTo_exact s ?_
  -- Either the shift ends at the least exponent, or it fills the mantissa.
  by_cases hmin : (m.log2 : ℤ) + e - 52 ≤ -1074
  · exact .inr (by omega)
  · exact .inl (two_pow_le_shiftLeft hm (by omega))

theorem roundsTo_normalize (m e : ℤ) (s : Sign) :
    RoundsTo (m * (2 : ℝ) ^ e) (UnpackedFloat.normalize .binary64 m e s) := by
  rcases lt_trichotomy m 0 with hneg | rfl | hpos
  · have hround := roundsTo_round .negative (m := (-m).toNat) (by omega) e
    have hcast : (((-m).toNat : ℕ) : ℝ) = -m := by
      rw [← Int.cast_natCast, Int.toNat_of_nonneg (by omega), Int.cast_neg]
    rw [signed, hcast, neg_mul, neg_neg] at hround
    rwa [UnpackedFloat.normalize, compare_lt_iff_lt.mpr hneg]
  · rw [Int.cast_zero, zero_mul]
    exact (proper_zero s).roundsTo
  · have hround := roundsTo_round .positive (m := m.toNat) (by omega) e
    have hcast : ((m.toNat : ℕ) : ℝ) = m := by
      rw [← Int.cast_natCast, Int.toNat_of_nonneg (by omega)]
    rw [signed, hcast] at hround
    rwa [UnpackedFloat.normalize, compare_gt_iff_gt.mpr hpos]

/-! ## Operations -/

section Operations

variable {u v : UnpackedFloat}

theorem signed_shiftLeft (s : Sign) (m k : ℕ) (e : ℤ) :
    ((s.apply (m <<< k : ℕ) : ℤ) : ℝ) * (2 : ℝ) ^ (e - k) = signed s (m * 2 ^ e) := by
  cases s with
  | positive => exact_mod_cast shiftLeft_mul_zpow m k e
  | negative =>
    rw [Sign.apply, signed, Int.cast_neg, neg_mul, Int.cast_natCast, shiftLeft_mul_zpow]

theorem roundsTo_add (hu : Proper u) (hv : Proper v) :
    RoundsTo (value u + value v) (UnpackedFloat.add .binary64 u v) := by
  rcases hu.cases with ⟨s, rfl⟩ | ⟨s, m, e, hm, rfl, -⟩
  · rcases hv.cases with ⟨s', rfl⟩ | ⟨s', m', e', hm', rfl, -⟩
    · rw [value_zero, value_zero, add_zero, UnpackedFloat.add]
      split <;> exact (proper_zero _).roundsTo
    · rw [value_zero, zero_add]
      exact hv.roundsTo
  · rcases hv.cases with ⟨s', rfl⟩ | ⟨s', m', e', hm', rfl, -⟩
    · rw [value_zero, add_zero]
      exact hu.roundsTo
    · -- Both mantissas are brought to the smaller exponent, where they add up exactly.
      have hsum := roundsTo_normalize
        (s.apply (m <<< (e - min e e').toNat : ℕ) + s'.apply (m' <<< (e' - min e e').toNat : ℕ))
        (min e e') .positive
      have hleft := signed_shiftLeft s m (e - min e e').toNat e
      have hright := signed_shiftLeft s' m' (e' - min e e').toNat e'
      rw [show e - ((e - min e e').toNat : ℤ) = min e e' by omega] at hleft
      rw [show e' - ((e' - min e e').toNat : ℤ) = min e e' by omega] at hright
      rw [Int.cast_add, add_mul, hleft, hright] at hsum
      exact hsum

theorem apply_neg (s : Sign) (m : ℤ) : (-s).apply m = -s.apply m := by
  cases s
  · exact (neg_neg m).symm
  · rfl

theorem sub_eq_add (u v : UnpackedFloat) :
    UnpackedFloat.sub .binary64 u v = UnpackedFloat.add .binary64 u v.neg := by
  cases u with
  | notANumber => cases v <;> rfl
  | infinity s => cases v <;> rfl
  | zero s => cases v <;> rfl
  | finite s m e hm =>
    cases v with
    | finite s' m' e' hm' =>
      simp only [UnpackedFloat.sub, UnpackedFloat.add, UnpackedFloat.neg, apply_neg,
        sub_eq_add_neg]
    | _ => rfl

theorem roundsTo_sub (hu : Proper u) (hv : Proper v) :
    RoundsTo (value u - value v) (UnpackedFloat.sub .binary64 u v) := by
  have h := roundsTo_add hu hv.neg
  rwa [value_neg, ← sub_eq_add, ← sub_eq_add_neg] at h

theorem signed_mul_signed (s s' : Sign) (a b : ℝ) :
    signed s a * signed s' b = signed (s * s') (a * b) := by
  cases s <;> cases s'
  · exact neg_mul_neg a b
  · exact neg_mul a b
  · exact mul_neg a b
  · rfl

theorem roundsTo_mul (hu : Proper u) (hv : Proper v) :
    RoundsTo (value u * value v) (UnpackedFloat.mul .binary64 u v) := by
  rcases hu.cases with ⟨s, rfl⟩ | ⟨s, m, e, hm, rfl, hcanon⟩
  · rw [value_zero, zero_mul]
    rcases hv.cases with ⟨s', rfl⟩ | ⟨s', m', e', hm', rfl, -⟩ <;> exact (proper_zero _).roundsTo
  · rcases hv.cases with ⟨s', rfl⟩ | ⟨s', m', e', hm', rfl, hcanon'⟩
    · rw [value_zero, mul_zero]
      exact (proper_zero _).roundsTo
    · have hbits : 2 ^ 52 ≤ m * m' ∨ e + e' ≤ -1074 := by
        obtain ⟨-, -, hfull | hmin⟩ := hcanon
        · exact .inl (hfull.trans (Nat.le_mul_of_pos_right m hm'))
        · obtain ⟨-, -, hfull' | hmin'⟩ := hcanon'
          · exact .inl (hfull'.trans (Nat.le_mul_of_pos_left m' hm))
          · exact .inr (by omega)
      have h := roundsTo_exact (s * s') hbits
      rw [Nat.cast_mul, zpow_add₀ two_ne_zero, mul_mul_mul_comm, ← signed_mul_signed] at h
      exact h

theorem signed_div_signed (s s' : Sign) (a b : ℝ) :
    signed s a / signed s' b = signed (s / s') (a / b) := by
  cases s <;> cases s'
  · exact neg_div_neg_eq a b
  · exact neg_div b a
  · exact div_neg a
  · rfl

/-- The quotient of two mantissas, with what the remainder says about its accuracy, is
rounded. -/
theorem roundsTo_quotient (s : Sign) {m m' : ℕ} (hm' : 0 < m') {t : ℤ}
    (hbits : 2 ^ 52 ≤ m / m' ∨ t ≤ -1074) :
    RoundsTo (signed s (m * (2 : ℝ) ^ t / m'))
      (roundWithAccuracy .binary64 s (m / m') t (accuracyOfFraction (m % m') m')) := by
  have hpow : (0 : ℝ) < 2 ^ t := by positivity
  have hpos : (0 : ℝ) < m' := Nat.cast_pos.mpr hm'
  have hdiv : (m' : ℝ) * (m / m' : ℕ) + (m % m' : ℕ) = m := by
    exact_mod_cast Nat.div_add_mod m m'
  have hrest : ((m % m' : ℕ) : ℝ) < m' := by exact_mod_cast Nat.mod_lt m hm'
  have hrest_nonneg : (0 : ℝ) ≤ (m % m' : ℕ) := Nat.cast_nonneg _
  have hquotient : m * (2 : ℝ) ^ t / m' = (m / m' : ℝ) * 2 ^ t := by ring
  rw [hquotient]
  refine roundsTo_signed s ?_ ?_ (fun hacc => ?_) hbits
  · refine mul_le_mul_of_nonneg_right ?_ hpow.le
    rw [le_div_iff₀ hpos]
    linarith
  · refine mul_lt_mul_of_pos_right ?_ hpow
    rw [div_lt_iff₀ hpos]
    linarith
  · refine mul_lt_mul_of_pos_right ?_ hpow
    have hne : m % m' ≠ 0 := fun h => hacc (by rw [h]; rfl)
    have hrest_pos : (0 : ℝ) < (m % m' : ℕ) := Nat.cast_pos.mpr (Nat.pos_of_ne_zero hne)
    rw [lt_div_iff₀ hpos]
    linarith

theorem roundsTo_div (hu : Proper u) (hv : Proper v) (hne : value v ≠ 0) :
    RoundsTo (value u / value v) (UnpackedFloat.div .binary64 u v) := by
  rcases hv.cases with ⟨s', rfl⟩ | ⟨s', m', e', hm', rfl, hcanon'⟩
  · exact absurd rfl hne
  · rcases hu.cases with ⟨s, rfl⟩ | ⟨s, m, e, hm, rfl, hcanon⟩
    · rw [value_zero, zero_div]
      exact (proper_zero _).roundsTo
    · -- The dividend is shifted so far that the quotient fills the mantissa.
      obtain ⟨k, hk⟩ : ∃ k : ℕ, min (e - e')
          (max ((m.log2 + 1 + e) - (m'.log2 + 1 + e') - 53) (-1074)) = e - e' - k :=
        ⟨(e - e' - min (e - e')
          (max ((m.log2 + 1 + e) - (m'.log2 + 1 + e') - 53) (-1074))).toNat, by omega⟩
      have hcore : divCore .binary64 m e m' e' =
          (m <<< k / m', e - e' - k, accuracyOfFraction (m <<< k % m') m') := by
        simp only [divCore, targetExponent_binary64, totalExponent, hk, sub_sub_cancel,
          Int.toNat_natCast]
      have hbits : 2 ^ 52 ≤ m <<< k / m' ∨ e - e' - k ≤ -1074 := by
        by_cases hmin : e - e' - k ≤ -1074
        · exact .inr hmin
        · refine .inl ((Nat.le_div_iff_mul_le hm').mpr ?_)
          calc 2 ^ 52 * m' ≤ 2 ^ 52 * 2 ^ (m'.log2 + 1) := Nat.mul_le_mul_left _ Nat.lt_log2_self.le
            _ = 2 ^ (52 + (m'.log2 + 1)) := (pow_add ..).symm
            _ ≤ m <<< k := two_pow_le_shiftLeft hm.ne' (by omega)
      have h := roundsTo_quotient (s / s') hm' hbits
      rw [shiftLeft_mul_zpow] at h
      have hvalue : value (.finite s m e hm) / value (.finite s' m' e' hm') =
          signed (s / s') (m * (2 : ℝ) ^ (e - e') / m') := by
        rw [value_finite, value_finite, signed_div_signed, zpow_sub₀ two_ne_zero]
        congr 1
        have : (m' : ℝ) ≠ 0 := Nat.cast_ne_zero.mpr hm'.ne'
        field_simp
      rw [hvalue, UnpackedFloat.div, hcore]
      exact h

/-- The integer root of a mantissa, with what the remainder says about its accuracy, is
rounded. -/
theorem roundsTo_root {m : ℕ} {t : ℤ} (hbits : 2 ^ 52 ≤ m.sqrt ∨ t ≤ -1074) {acc : Accuracy}
    (hacc : acc ≠ .exact → m - m.sqrt * m.sqrt ≠ 0) :
    RoundsTo (√m * (2 : ℝ) ^ t) (roundWithAccuracy .binary64 .positive m.sqrt t acc) := by
  have hpow : (0 : ℝ) < 2 ^ t := by positivity
  have hlt : (m : ℝ) < (m.sqrt + 1) ^ 2 := by
    rw [sq]
    exact_mod_cast Nat.lt_succ_sqrt m
  refine roundsTo_signed .positive ?_ ?_ (fun h => ?_) hbits
  · refine mul_le_mul_of_nonneg_right (Real.le_sqrt_of_sq_le ?_) hpow.le
    rw [sq]
    exact_mod_cast Nat.sqrt_le m
  · refine mul_lt_mul_of_pos_right ?_ hpow
    exact (Real.sqrt_lt' (by positivity)).mpr hlt
  · refine mul_lt_mul_of_pos_right (Real.lt_sqrt_of_sq_lt ?_) hpow
    have hrest : m.sqrt * m.sqrt < m := Nat.lt_of_sub_ne_zero (hacc h)
    rw [sq]
    exact_mod_cast hrest

theorem value_pos (m : ℕ) (e : ℤ) (hm : 0 < m) : (0 : ℝ) < m * 2 ^ e :=
  mul_pos (Nat.cast_pos.mpr hm) (zpow_pos two_pos e)

theorem roundsTo_sqrt (hu : Proper u) (hnonneg : 0 ≤ value u) :
    RoundsTo √(value u) (UnpackedFloat.sqrt .binary64 u) := by
  rcases hu.cases with ⟨s, rfl⟩ | ⟨s, m, e, hm, rfl, hcanon⟩
  · rw [value_zero, Real.sqrt_zero]
    exact (proper_zero s).roundsTo
  · have hpos := value_pos m e hm
    obtain rfl : s = .positive := by
      cases s with
      | positive => rfl
      | negative => exact absurd hnonneg (neg_neg_of_pos hpos).not_ge
    -- The mantissa is shifted so far that its root fills the width.
    obtain ⟨t, ht⟩ : ∃ t, min (e / 2) (max ((m.log2 + 1 + e + 1) / 2 - 53) (-1074)) = t := ⟨_, rfl⟩
    obtain ⟨k, hk⟩ : ∃ k : ℕ, e - k = 2 * t := ⟨(e - 2 * t).toNat, by omega⟩
    have hshift : (e - 2 * t).toNat = k := by omega
    have hcore : sqrtCore .binary64 m e = ((m <<< k).sqrt, t,
        if m <<< k - (m <<< k).sqrt * (m <<< k).sqrt = 0 then .exact
        else .inexact (if m <<< k - (m <<< k).sqrt * (m <<< k).sqrt ≤ (m <<< k).sqrt then .lt
          else .gt)) := by
      simp only [sqrtCore, targetExponent_binary64, totalExponent, ← hshift, ← ht]
      rfl
    have hbits : 2 ^ 52 ≤ (m <<< k).sqrt ∨ t ≤ -1074 := by
      by_cases hmin : t ≤ -1074
      · exact .inr hmin
      · refine .inl (Nat.le_sqrt.mpr ?_)
        rw [← pow_add]
        exact two_pow_le_shiftLeft hm.ne' (by omega)
    have hvalue : √(value (.finite .positive m e hm)) = √((m <<< k : ℕ) : ℝ) * 2 ^ t := by
      have hsq : value (.finite .positive m e hm) = ((m <<< k : ℕ) : ℝ) * (2 ^ t * 2 ^ t) := by
        rw [← zpow_add₀ two_ne_zero, ← two_mul, ← hk, shiftLeft_mul_zpow]
        rfl
      rw [hsq, Real.sqrt_mul (Nat.cast_nonneg _), Real.sqrt_mul_self (by positivity)]
    rw [hvalue, UnpackedFloat.sqrt, hcore]
    refine roundsTo_root hbits fun hacc hzero => hacc ?_
    rw [if_pos hzero]

theorem roundsTo_ofNat (n : ℕ) : RoundsTo n (UnpackedFloat.ofNat .binary64 n) := by
  have h := roundsTo_normalize n 0 .positive
  rw [zpow_zero, mul_one, Int.cast_natCast] at h
  exact h

end Operations

end MachineFloat

end Rebalancing
