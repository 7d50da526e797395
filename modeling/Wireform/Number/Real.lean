import Wireform.Number.Double
import Wireform.Number.Whole

/-
  Wireform reals as text: decimal digits with a point and an exponent, or the names of infinity and
  not-a-number in any case. Underscores may stand between two digits.
-/

namespace Wireform.Real

/-- The parts of a decimal: the digits before and after the point and the exponent. -/
structure Parts where
  whole : List Char
  fraction : List Char
  exponent : Int

/-- The exponent that follows the digits, if there is one. -/
def readExponent : List Char → Option Int
  | [] => some 0
  | c :: r =>
    let (negative, ds) := Whole.takeSign r
    if (c = 'e' || c = 'E') && !ds.isEmpty && ds.all Text.isDigitAscii then
      some (if negative then -(Text.digitsValue ds : Int) else Text.digitsValue ds)
    else none

/-- Digits, a point and more digits, where one side may be empty, and an exponent. -/
def readParts (s : List Char) : Option Parts :=
  let whole := s.takeWhile Text.isDigitAscii
  let rest := s.dropWhile Text.isDigitAscii
  let (fraction, tail) := match rest with
    | '.' :: r => (r.takeWhile Text.isDigitAscii, r.dropWhile Text.isDigitAscii)
    | r => ([], r)
  if whole.isEmpty && fraction.isEmpty then none
  else (readExponent tail).map fun e => ⟨whole, fraction, e⟩

/-- The digits of both sides as one number. -/
def Parts.coefficient (p : Parts) : Nat := Text.digitsValue (p.whole ++ p.fraction)

/-- The power of ten that the coefficient is multiplied with. -/
def Parts.scale (p : Parts) : Int := p.exponent - p.fraction.length

/-- The text without underscores, if each of them stands between two digits. -/
def dropBars (s : List Char) : Option (List Char) := go none s
where
  go (before : Option Char) : List Char → Option (List Char)
    | [] => some []
    | c :: r =>
      if c = '_' then
        if before.any Text.isDigitAscii && r.head?.any Text.isDigitAscii then go (some c) r
        else none
      else (go (some c) r).map (c :: ·)

def asciiLower (s : List Char) : List Char :=
  s.map fun c => if Text.isUpperAscii c then Char.ofNat (c.toNat + 32) else c

/-- Reads a double; white space around it is passed over. -/
def read (s : List Char) : Option Double := do
  let s ← dropBars (Text.trim Text.isBlankAscii (Text.plainDigits s))
  let (negative, r) := Whole.takeSign s
  let name := asciiLower r
  if name = "inf".toList || name = "infinity".toList then return .infinite negative
  else if name = "nan".toList then return .nan
  else
    let p ← readParts r
    return .ofScientific negative p.coefficient p.scale

end Wireform.Real
