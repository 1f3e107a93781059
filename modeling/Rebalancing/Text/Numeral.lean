-- SUMMARY: The written forms of numbers: scientific with a count of digits, with a fixed count of places, and in full with the fewest digits.
import Rebalancing.Text.Decimal

/-!
# Numerals

Three written forms of a machine float. All of them round the exact value of
the float. Not-a-number is written `NaN` and the infinities `inf` and `-inf`.
-/

namespace Rebalancing

namespace Numeral

/-! ## Parts -/

/-- The sign in front of a numeral. -/
def sign (negative : Bool) : String := if negative then "-" else ""

/-- The special values are written alike in every form. -/
def special (x : FloatValue) (finite : Bool → Fraction → String) : String :=
  match x with
  | .nan => "NaN"
  | .infinite negative => sign negative ++ "inf"
  | .finite negative q => finite negative q

/-- Digits with a point before the last `places` of them, and at least one digit
before the point. -/
def point (ds : List Char) (places : Nat) : String :=
  let padded := List.replicate (places + 1 - ds.length) '0' ++ ds
  let whole := padded.take (padded.length - places)
  let part := padded.drop (padded.length - places)
  String.ofList (if part.isEmpty then whole else whole ++ '.' :: part)

/-! ## Forms -/

/-- One digit, `places` digits after the point, and the power of ten. -/
def scientific (places : Nat) (x : Float) : String :=
  special (FloatValue.ofFloat x) fun negative q =>
    let d : Decimal := if q.num = 0 then ⟨0, -places⟩ else .ofFraction (places + 1) q
    let ds := List.replicate (places + 1 - (digits d.units).length) '0' ++ digits d.units
    sign negative ++ point ds places ++ "e" ++ toString (d.exponent + places)

/-- A count of places after the point. A number that rounds to zero has no sign. -/
def fixed (places : Nat) (x : Float) : String :=
  special (FloatValue.ofFloat x) fun negative q =>
    let units := (q.shift 10 places).round
    sign (negative && units ≠ 0) ++ point (digits units) places

/-- The fewest digits that read back, written in full, never with a power of
ten. -/
def plain (x : Float) : String :=
  special (FloatValue.ofFloat x) fun negative q =>
    let d : Decimal := if q.num = 0 then ⟨0, 0⟩ else .shortest x.abs q
    sign negative ++
      if 0 ≤ d.exponent then point (digits d.units ++ List.replicate d.exponent.toNat '0') 0
      else point (digits d.units) (-d.exponent).toNat

/-- The form of numbers in messages: four digits. -/
def message (x : Float) : String := scientific 3 x

end Numeral

end Rebalancing
