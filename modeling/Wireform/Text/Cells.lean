import Wireform.Text.Basic
import Wireform.Text.CellTable

/-
  Wireform text: how wide a terminal shows a text.
-/

namespace Wireform.Text

/-- The cells of one character. -/
def cellsOf (c : Char) : Nat :=
  if 32 ≤ c.toNat && c.toNat < 127 then 1
  else if inRanges wideRanges c then 2
  else if inRanges emptyRanges c then 0
  else 1

/-- The cells of a text. -/
def cells (s : String) : Nat := (s.toList.map cellsOf).foldr (· + ·) 0

end Wireform.Text
