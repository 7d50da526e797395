import Wireform.Text.PrintableTable
import Wireform.Text.Basic

/-
  Wireform text: how messages show a text. It stands in single quotes, or in double quotes if it
  holds a single quote and no double one; what is not printable is escaped.
-/

namespace Wireform.Text

def isPrintable (c : Char) : Bool :=
  if isAscii c then 32 ≤ c.toNat && c.toNat < 127 else inRanges printableRanges c

/-- The lower-case digit of a value below sixteen. -/
def hexDigit (n : Nat) : Char := Nat.digitChar n

/-- The lowest `width` base-sixteen digits of `n`. -/
def hexPadded : Nat → Nat → List Char
  | 0, _ => []
  | width + 1, n => hexPadded width (n / 16) ++ [hexDigit (n % 16)]

/-- The quote that surrounds a text. -/
def quoteMark (s : List Char) : Char := if s.contains '\'' && !s.contains '"' then '"' else '\''

/-- One character inside the quotes `q`. -/
def quotedChar (q c : Char) : List Char :=
  if c = q || c = '\\' then ['\\', c]
  else if c = '\n' then ['\\', 'n']
  else if c = '\r' then ['\\', 'r']
  else if c = '\t' then ['\\', 't']
  else if isPrintable c then [c]
  else if c.toNat < 0x100 then '\\' :: 'x' :: hexPadded 2 c.toNat
  else if c.toNat < 0x10000 then '\\' :: 'u' :: hexPadded 4 c.toNat
  else '\\' :: 'U' :: hexPadded 8 c.toNat

/-- The text in quotes. -/
def quotedChars (s : List Char) : List Char :=
  quoteMark s :: s.flatMap (quotedChar (quoteMark s)) ++ [quoteMark s]

/-- `quotedChars` on strings. -/
def quoted (s : String) : String := String.ofList (quotedChars s.toList)

/-- The parts between round brackets; a single part is followed by a comma. -/
def tuple : List String → String
  | [] => "()"
  | [x] => "(" ++ x ++ ",)"
  | xs => "(" ++ ", ".intercalate xs ++ ")"

/-- The parts between square brackets. -/
def bracketed (xs : List String) : String := "[" ++ ", ".intercalate xs ++ "]"

end Wireform.Text
