import Wireform.Number.Whole
import Wireform.Text.Quoted

/-
  Wireform reading: why a text or a number cannot be read as a value. Most causes are malformed
  texts; a bad decimal and an instant that no clock shows are failures of arithmetic instead, and
  `isMalformed` tells the two apart.
-/

namespace Wireform

inductive ReadError where
  | notBoolean (text : String)
  | notWhole (text : String)
  | tooManyDigits (digits : Nat)
  | notReal (text : String)
  | badDecimal
  | notMember (shown name : String)
  | badBase64
  | notAscii
  | badUtf8
  | noOffset (text : String)
  | badDateTime (text : String)
  | badHttpDate (text : String)
  | badEpochSeconds (text : String)
  | nanInstant
  | yearOutOfRange (year : Int)
  | instantOutOfRange
  | noSuchClock
  deriving DecidableEq, Repr

namespace ReadError

/-- Whether the text is at fault, and not the arithmetic done with it. -/
def isMalformed : ReadError → Bool
  | badDecimal | instantOutOfRange | noSuchClock => false
  | _ => true

/-- The most characters of a quoted text that a message about a whole number shows. -/
def shownWhole : Nat := 200

def message : ReadError → String
  | notBoolean text => "expected 'true' or 'false', got " ++ Text.quoted text
  | notWhole text => "invalid literal for int() with base 10: " ++
      String.ofList ((Text.quotedChars text.toList).take shownWhole)
  | tooManyDigits n => Whole.tooLongToRead n
  | notReal text => "could not convert string to float: " ++ Text.quoted text
  | notMember shown name => shown ++ " is not a valid " ++ name
  | badBase64 => "failed to decode base64"
  | notAscii => "string argument should contain only ASCII characters"
  | badUtf8 => "base64 encoded data was not valid utf-8"
  | noOffset text => "date-time must carry an offset: " ++ Text.quoted text
  | badDateTime text => "invalid date-time: " ++ Text.quoted text
  | badHttpDate text => "invalid http-date: " ++ Text.quoted text
  | badEpochSeconds text => "invalid epoch-seconds: " ++ Text.quoted text
  | nanInstant => "Invalid value NaN (not a number)"
  | yearOutOfRange year => s!"year {year} is out of range"
  | badDecimal | instantOutOfRange | noSuchClock => ""

/-- The cause why a text is no whole number. -/
def ofWhole (text : String) : Whole.Fault → ReadError
  | .malformed => notWhole text
  | .tooLong n => tooManyDigits n

end ReadError

/-- Reads a whole number from a text. -/
def Whole.ofText (s : String) : Except ReadError Int := (Whole.read s.toList).mapError (.ofWhole s)

end Wireform
