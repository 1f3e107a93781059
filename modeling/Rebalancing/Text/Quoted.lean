-- SUMMARY: Text between quotes, with escapes for what would not show as itself.
import Rebalancing.Text.Hidden

/-!
# Quoted text

Text is shown between double quotes. A double quote and a backslash are escaped
by a backslash; the tab, the two line ends and the null character have letters
of their own; and any other character that does not show as itself is written
by its code point.
-/

namespace Rebalancing

namespace Text

/-- How a character is written between quotes. -/
def escape (c : Char) : List Char :=
  match c with
  | '"' => ['\\', '"']
  | '\\' => ['\\', '\\']
  | '\t' => ['\\', 't']
  | '\r' => ['\\', 'r']
  | '\n' => ['\\', 'n']
  | '\x00' => ['\\', '0']
  | c =>
    if isHidden c then ['\\', 'u', '\x7b'] ++ Nat.toDigits 16 c.toNat ++ ['\x7d'] else [c]

/-- Text between quotes. -/
def quote (s : List Char) : List Char := '"' :: s.flatMap escape ++ ['"']

end Text

end Rebalancing
