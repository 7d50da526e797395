import Wireform.Text.Digit

/-
  Wireform whole numbers as text: an optional sign and decimal digits, single underscores between
  digits allowed when read. Neither way goes past 4300 digits.
-/

namespace Wireform.Whole

/-- The most digits a whole number may have as text. -/
def maxDigits : Nat := 4300

/-- Why a text is not a whole number. -/
inductive Fault where
  | malformed
  | tooLong (digits : Nat)
  deriving DecidableEq

/-- Whether underscores stand only between digits, one at a time. -/
def wellSpaced : List Char → Bool
  | '_' :: '_' :: _ => false
  | ['_'] => false
  | _ :: r => wellSpaced r
  | [] => true

/-- A sign in front of a number. -/
def takeSign : List Char → Bool × List Char
  | '-' :: r => (true, r)
  | '+' :: r => (false, r)
  | r => (false, r)

def isDigitOrBar (c : Char) : Bool := Text.isDigitAscii c || c = '_'

/-- Reads digits after the sign. -/
def readDigits (s : List Char) : Except Fault Nat :=
  let run := s.takeWhile isDigitOrBar
  let digits := run.filter Text.isDigitAscii
  if run.head? = none || run.head? = some '_' || !wellSpaced run then .error .malformed
  else if maxDigits < digits.length then .error (.tooLong digits.length)
  else if (s.dropWhile isDigitOrBar).all Text.isBlankAscii then .ok (Text.digitsValue digits)
  else .error .malformed

/-- Reads a whole number; white space around it is passed over. -/
def read (s : List Char) : Except Fault Int := do
  let (negative, r) := takeSign ((Text.plainDigits s).dropWhile Text.isBlankAscii)
  let n ← readDigits r
  return if negative then -(n : Int) else n

/-- The digits of a whole number with a minus sign if it is below zero. -/
def digits (n : Int) : List Char :=
  if n < 0 then '-' :: Text.ofNat n.natAbs else Text.ofNat n.natAbs

/-- The text of a whole number, if it is short enough. -/
def write? (n : Int) : Option (List Char) :=
  if n.natAbs < Nat.pow 10 maxDigits then some (digits n) else none

/-- The message for a number that is too long to be written. -/
def tooLongToWrite : String :=
  s!"Exceeds the limit ({maxDigits} digits) for integer string conversion; " ++
    "use sys.set_int_max_str_digits() to increase the limit"

/-- The message for a text of so many digits. -/
def tooLongToRead (digits : Nat) : String :=
  s!"Exceeds the limit ({maxDigits} digits) for integer string conversion: value has {digits} " ++
    "digits; use sys.set_int_max_str_digits() to increase the limit"

end Wireform.Whole
