-- SUMMARY: Decimal numbers: exact values of machine floats as fractions, rounding of fractions to digits, and the way back to a machine float.
import Rebalancing.Scalar

/-!
# Decimals

A decimal is a natural number of units of a power of ten. Machine floats are
taken apart into fractions of natural numbers, and all rounding is done on
those fractions, so that no digit depends on an inexact operation.
-/

namespace Rebalancing

/-! ## Fractions -/

/-- A fraction of natural numbers. -/
structure Fraction where
  num : Nat
  den : Nat

namespace Fraction

/-- Multiply by a power of a base, which may have a negative exponent. -/
def shift (q : Fraction) (base : Nat) (exponent : Int) : Fraction :=
  if 0 ≤ exponent then { q with num := q.num * Nat.pow base exponent.toNat }
  else { q with den := q.den * Nat.pow base (-exponent).toNat }

/-- The nearest natural number; a half goes to the even neighbour. -/
def round (q : Fraction) : Nat :=
  let whole := q.num / q.den
  let rest := 2 * (q.num % q.den)
  if rest < q.den then whole
  else if q.den < rest then whole + 1
  else whole + whole % 2

/-- The rounded number is within one half of the fraction. -/
theorem round_near (q : Fraction) (h : 0 < q.den) :
    2 * (q.round * q.den) ≤ 2 * q.num + q.den ∧ 2 * q.num ≤ 2 * (q.round * q.den) + q.den := by
  have hq : q.den * (q.num / q.den) + q.num % q.den = q.num := Nat.div_add_mod q.num q.den
  have hr : q.num % q.den < q.den := Nat.mod_lt _ h
  unfold round
  generalize q.num / q.den = w at *
  have h0 : w * q.den = q.den * w := Nat.mul_comm ..
  have h1 : (w + 1) * q.den = q.den * w + q.den := by rw [Nat.add_mul, Nat.mul_comm]; simp
  dsimp only
  split
  · omega
  · split
    · omega
    · have hw : w % 2 = 0 ∨ w % 2 = 1 := by omega
      rcases hw with hw | hw
      · rw [hw, Nat.add_zero]; omega
      · rw [hw]; omega

/-- Half way between two numbers, rounding takes the even one. -/
theorem round_even (q : Fraction) (h : 2 * (q.num % q.den) = q.den) : q.round % 2 = 0 := by
  unfold round
  dsimp only
  rw [if_neg (by omega), if_neg (by omega)]
  omega

end Fraction

/-! ## Machine floats as fractions -/

/-- What a machine float stands for. -/
inductive FloatValue where
  | nan
  | infinite (negative : Bool)
  | finite (negative : Bool) (magnitude : Fraction)

/-- Take a machine float apart: one bit of sign, eleven of exponent and
fifty-two of significand. -/
def FloatValue.ofFloat (x : Float) : FloatValue :=
  let bits := x.toBits.toNat
  let negative := Nat.pow 2 63 ≤ bits
  let exponent : Nat := bits / Nat.pow 2 52 % Nat.pow 2 11
  let significand := bits % Nat.pow 2 52
  if exponent = Nat.pow 2 11 - 1 then
    if significand = 0 then .infinite negative else .nan
  else if exponent = 0 then
    .finite negative (Fraction.shift ⟨significand, 1⟩ 2 (-1074))
  else
    .finite negative (Fraction.shift ⟨Nat.pow 2 52 + significand, 1⟩ 2 ((exponent : Int) - 1075))

/-! ## Decimals -/

/-- The number `units * 10 ^ exponent`. -/
structure Decimal where
  units : Nat
  exponent : Int

/-- The decimal digits of a natural number. -/
def digits (n : Nat) : List Char := Nat.toDigits 10 n

/-- The exponent `k` with `10 ^ k ≤ q < 10 ^ (k + 1)`, for a fraction above zero. -/
def Fraction.scale (q : Fraction) : Int :=
  if q.den ≤ q.num then (digits (q.num / q.den)).length - 1
  else -(digits ((q.den - 1) / q.num)).length

namespace Decimal

/-- A fraction above zero, rounded to a count of digits. -/
def ofFraction (count : Nat) (q : Fraction) : Decimal :=
  let exponent := q.scale + 1 - count
  let units := (q.shift 10 (-exponent)).round
  if units = Nat.pow 10 count then ⟨Nat.pow 10 (count - 1), exponent + 1⟩ else ⟨units, exponent⟩

/-- The nearest machine float; beyond the greatest one, infinity. Outside of
`10 ^ -330` to `10 ^ 310` the result is known without arithmetic. -/
def toFloat (d : Decimal) : Float :=
  let reach := (digits d.units).length + d.exponent
  if d.units = 0 || reach < -330 then 0
  else if 310 < reach then Scalar.infinity
  else Float.ofScientific d.units (d.exponent < 0) d.exponent.natAbs

/-- Drop zeros at the end of the units. -/
def dropZeros (d : Decimal) : Decimal :=
  let zeros := ((digits d.units).reverse.takeWhile (· = '0')).length
  if d.units = 0 then d else ⟨d.units / Nat.pow 10 zeros, d.exponent + zeros⟩

/-- The neighbour of a fraction on the grid of a count of digits that reads back
as `x`; of two the nearer, and half way between them the upper. -/
def readsBack? (x : Float) (q : Fraction) (count : Nat) : Option Decimal :=
  let exponent := q.scale + 1 - count
  let onGrid := q.shift 10 (-exponent)
  let lower : Decimal := ⟨onGrid.num / onGrid.den, exponent⟩
  let upper : Decimal := ⟨onGrid.num / onGrid.den + 1, exponent⟩
  let lowerNearer := 2 * (onGrid.num % onGrid.den) < onGrid.den
  match lower.toFloat == x, upper.toFloat == x with
  | true, true => some (if lowerNearer then lower else upper)
  | true, false => some lower
  | false, true => some upper
  | false, false => none

/-- The fewest digits that read back as `x`, which has the magnitude `q` above
zero. Seventeen digits always do. -/
def shortest (x : Float) (q : Fraction) : Decimal :=
  dropZeros <| ((List.range' 1 17).findSome? (readsBack? x q)).getD (ofFraction 17 q)

end Decimal

end Rebalancing
