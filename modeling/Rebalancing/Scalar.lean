-- SUMMARY: The numbers the library computes with: field operations, order, roots, logarithms and the special values of a machine float.

/-!
# Scalars

Every numeric definition of the library is stated over `Scalar`, so one
definition both runs on machine floats and is reasoned about over exact
numbers. No laws are assumed, and a definition relies on none: it fixes the
order in which operations are applied, because on machine floats the order
shows.
-/

namespace Rebalancing

/-- Numbers with the operations that the library needs. -/
class Scalar (F : Type) extends Zero F, One F, Add F, Sub F, Mul F, Div F, Neg F, LT F, LE F where
  sqrt : F → F
  log : F → F
  exp : F → F
  abs : F → F
  /-- The scalar nearest to a count. -/
  ofCount : Nat → F
  /-- The least count that is not below the scalar; zero when there is none. -/
  ceilCount : F → Nat
  /-- The value of an undefined operation. -/
  nan : F
  /-- A value that no other value exceeds. -/
  infinity : F
  isNaN : F → Bool
  isFinite : F → Bool
  decLT : DecidableLT F
  decLE : DecidableLE F

attribute [reducible, instance] Scalar.decLT Scalar.decLE

/-- Machine floats: IEEE binary64, rounded to nearest after every operation. -/
instance : Scalar Float where
  zero := 0
  one := 1
  sqrt := Float.sqrt
  log := Float.log
  exp := Float.exp
  abs := Float.abs
  ofCount := Float.ofNat
  ceilCount x := x.ceil.toUInt64.toNat
  nan := 0 / 0
  infinity := 1 / 0
  isNaN := Float.isNaN
  isFinite := Float.isFinite
  decLT := inferInstance
  decLE := inferInstance

namespace Scalar

variable {F : Type} [Scalar F]

/-- The larger of two scalars; if one of them is `nan`, the other. -/
@[inline] def max (a b : F) : F :=
  if isNaN a then b else if a < b then b else a

/-- The smaller of two scalars; if one of them is `nan`, the other. -/
@[inline] def min (a b : F) : F :=
  if isNaN a then b else if b < a then b else a

@[inline] def two : F := 1 + 1

@[inline] def half : F := 1 / two

/-- The number `10 ^ -k`, as one division. -/
def tenToMinus (k : Nat) : F := 1 / ofCount (Nat.pow 10 k)

end Scalar

end Rebalancing
