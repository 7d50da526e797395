import Wireform.Text.Basic

/-
  Wireform text: white space. `isBlank` is the class of the character standard together with the
  four separators 0x1c to 0x1f; `isPad` is the space and tab that may surround a header value.
-/

namespace Wireform.Text

/-- The characters that count as white space. -/
def blankRanges : List (Nat × Nat) := [
  (0x9, 0xd), (0x1c, 0x20), (0x85, 0x85), (0xa0, 0xa0), (0x1680, 0x1680), (0x2000, 0x200a),
  (0x2028, 0x2029), (0x202f, 0x202f), (0x205f, 0x205f), (0x3000, 0x3000)]

def isBlank (c : Char) : Bool := inRanges blankRanges c

/-- A space or a tab. -/
def isPad (c : Char) : Bool := c = ' ' || c = '\t'

/-- The white space of ASCII, without the four separators. -/
def isBlankAscii (c : Char) : Bool := (0x9 ≤ c.toNat && c.toNat ≤ 0xd) || c = ' '

theorem isBlank_of_isPad {c : Char} (h : isPad c = true) : isBlank c = true := by
  simp only [isPad, Bool.or_eq_true, decide_eq_true_eq] at h
  rcases h with rfl | rfl <;> decide

end Wireform.Text
