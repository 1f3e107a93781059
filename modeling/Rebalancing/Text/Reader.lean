-- SUMMARY: Reading counts and machine floats from text.
import Rebalancing.Text.Decimal

/-!
# Reading numbers

A count is written by decimal digits, perhaps after a plus sign, and stays below
`2 ^ 64`. A machine float has a sign or none, digits with or without a point,
and a power of ten or none; or it is one of the words for infinity and
not-a-number, in either case of letters. Only the ASCII digits count.
-/

namespace Rebalancing

namespace Reader

/-! ## Digits -/

/-- The number that a sequence of decimal digits denotes. -/
def ofDigits (ds : List Char) : Nat := ds.foldl (fun n c => 10 * n + (c.toNat - '0'.toNat)) 0

/-- One or more digits and nothing else. -/
def digits? (cs : List Char) : Option Nat :=
  if !cs.isEmpty && cs.all Char.isDigit then some (ofDigits cs) else none

/-- Split a sign off. Returns whether it is a minus. -/
def splitSign : List Char → Bool × List Char
  | '-' :: cs => (true, cs)
  | '+' :: cs => (false, cs)
  | cs => (false, cs)

/-! ## Counts -/

/-- Counts stay below this. -/
def countLimit : Nat := Nat.pow 2 64

/-- Read a count. -/
def count? (s : List Char) : Option Nat := do
  let digits := match s with
    | '+' :: cs => cs
    | cs => cs
  let n ← digits? digits
  if n < countLimit then some n else none

/-! ## Machine floats -/

/-- Read the power of ten that may follow the digits. -/
def exponent? : List Char → Option Int
  | [] => some 0
  | e :: cs =>
    if e = 'e' || e = 'E' then
      let (negative, ds) := splitSign cs
      (digits? ds).map fun n => if negative then -n else n
    else none

/-- Read a decimal without a sign. -/
def decimal? (cs : List Char) : Option Decimal := do
  let (whole, rest) := cs.span Char.isDigit
  let (part, rest) := match rest with
    | '.' :: rest => rest.span Char.isDigit
    | _ => ([], rest)
  if whole.isEmpty && part.isEmpty then none
  let exponent ← exponent? rest
  some ⟨ofDigits (whole ++ part), exponent - part.length⟩

/-- Read one of the words for a special value. -/
def word? (cs : List Char) : Option Float :=
  let word := String.ofList (cs.map Char.toLower)
  if word = "inf" || word = "infinity" then some Scalar.infinity
  else if word = "nan" then some Scalar.nan
  else none

/-- Read a machine float: the one nearest to the number written. -/
def float? (s : List Char) : Option Float :=
  let (negative, body) := splitSign s
  let magnitude := word? body <|> (decimal? body).map Decimal.toFloat
  magnitude.map fun x => if negative then -x else x

end Reader

end Rebalancing
