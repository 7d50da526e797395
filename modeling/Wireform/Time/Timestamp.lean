import Wireform.Number.Real
import Wireform.Number.Shortest
import Wireform.ReadError
import Wireform.Time.IsoReader
import Wireform.Time.MailDate

/-
  Wireform timestamps: the three wire formats of a moment. Writing keeps milliseconds, or whole
  seconds in an http-date; reading always gives a moment in UTC.
-/

namespace Wireform

/-- How a timestamp is written. -/
inductive TimestampFormat where
  | dateTime
  | httpDate
  | epochSeconds
  deriving DecidableEq, Repr

namespace TimestampFormat

def name : TimestampFormat → String
  | dateTime => "date-time"
  | httpDate => "http-date"
  | epochSeconds => "epoch-seconds"

def ofName? (s : String) : Option TimestampFormat :=
  [dateTime, httpDate, epochSeconds].find? (·.name = s)

end TimestampFormat

namespace Moment

/-! ## Seconds since the epoch -/

/-- The last second that the system's clock can count to, in either direction. -/
def maxSecond : Int := 9223372036854775807

/-- The latest year that the system's calendar can hold. -/
def maxSystemYear : Int := 2147483647 + 1900

/-- A year as a number of 32 bits. -/
def wrapYear (y : Int) : Int := Int.bmod y 4294967296

/-- The moment at so many seconds and microseconds since the epoch. -/
def ofEpoch (seconds micros : Int) : Except ReadError Moment :=
  let r := epoch + seconds * microsPerSecond + micros
  if 0 ≤ r && r < limit then .ok ⟨r, some 0⟩
  else
    let y := Date.yearOfNumber (Int.fdiv r microsPerDay + 1)
    if maxSystemYear < y || y < maxSystemYear - 4294967295 then .error .noSuchClock
    else .error (.yearOutOfRange (wrapYear y))

/-- The moment at a whole number of seconds since the epoch. -/
def ofWholeSeconds (n : Int) : Except ReadError Moment :=
  if n < -maxSecond - 1 || maxSecond < n then .error .instantOutOfRange else ofEpoch n 0

/-- The nearest number of microseconds in a fraction of a second, a tie going to the even one. The
product with a million is a double, as the fraction is. -/
def fractionMicros (num den : Nat) : Nat :=
  match Double.ofRatio false (num * microsPerSecond) den with
  | .finite _ m q => Double.roundQuotient (Double.ratio m q).1 (Double.ratio m q).2
  | _ => 0

/-- The moment at so many seconds since the epoch. -/
def ofSeconds : Double → Except ReadError Moment
  | .nan => .error .nanInstant
  | .infinite _ => .error .instantOutOfRange
  | .finite negative m q =>
    let (num, den) := Double.ratio m q
    let whole : Int := (num / den : Nat)
    let micros : Int := fractionMicros (num % den) den
    if negative then
      if maxSecond + 1 < whole then .error .instantOutOfRange else ofEpoch (-whole) (-micros)
    else if maxSecond < whole then .error .instantOutOfRange
    else ofEpoch whole micros

/-- Seconds since the epoch, rounded to the nearest double and then to milliseconds. -/
def epochSeconds (m : Moment) : Double :=
  let n := m.reading - epoch
  (Double.ofRatio (n < 0) n.natAbs microsPerSecond).roundPlaces 3

/-! ## Writing -/

/-- A number of seconds, without a fraction if it is whole. -/
def epochText (m : Moment) : List Char :=
  let s := m.epochSeconds
  if s.isWhole then Whole.digits (s.truncate?.getD 0) else s.text

/-- Hours, minutes and seconds between colons. -/
def clockText (c : Clock) : List Char :=
  two c.hour ++ ':' :: two c.minute ++ ':' :: two c.second

/-- Weekday, day, month, year and time of day. -/
def httpText (m : Moment) : List Char :=
  let d := m.date
  ((Date.weekdayNames.getD d.weekday "").toList ++ ", ".toList ++ two d.day ++ ' ' ::
    (Date.monthNames.getD (d.month - 1) "").toList) ++ ' ' :: Text.padded 4 d.year ++
    ' ' :: clockText m.clock ++ " GMT".toList

/-- Date and time of day, with milliseconds unless the microseconds are zero. The year has no zeros
in front. -/
def dateTimeText (m : Moment) : List Char :=
  let d := m.date
  let c := m.clock
  Text.ofNat d.year ++ '-' :: two d.month ++ '-' :: two d.day ++ 'T' :: clockText c ++
    (if c.micro = 0 then [] else '.' :: Text.padded 3 (c.micro / 1000)) ++ ['Z']

/-- The text of a moment whose clock shows UTC. -/
def textIn : TimestampFormat → Moment → List Char
  | .dateTime => dateTimeText
  | .httpDate => httpText
  | .epochSeconds => epochText

end Moment

namespace Timestamp

/-- Writes a moment; there is no text if UTC falls outside years 1 to 9999. -/
def write? (format : TimestampFormat) (m : Moment) : Option String :=
  m.utc?.map fun u => String.ofList (u.textIn format)

/-- Whether a date-time ends in `Z` or shows a sign behind its date. -/
def carriesOffset (s : List Char) : Bool :=
  (Text.upper s).getLast? = some 'Z' || (s.drop 10).contains '+' || (s.drop 10).contains '-'

/-- The moment in UTC. -/
def toUtc (m : Moment) : Except ReadError Moment :=
  match m.utc? with
  | some u => .ok u
  | none => .error .instantOutOfRange

/-- A date-time in upper case with each `Z` as an offset of zero. -/
def spellOffset (s : List Char) : List Char :=
  (Text.upper s).flatMap fun c => if c = 'Z' then "+00:00".toList else [c]

def readDateTime (s : List Char) : Except ReadError Moment :=
  if !carriesOffset s then .error (.noOffset (String.ofList s))
  else match IsoReader.read (spellOffset s) with
    | some m => toUtc m
    | none => .error (.badDateTime (String.ofList s))

def readHttpDate (s : List Char) : Except ReadError Moment :=
  match MailDate.read s with
  | .ok m => toUtc m
  | .error .malformed => .error (.badHttpDate (String.ofList s))
  | .error .outOfRange => .error .instantOutOfRange

def readEpochSeconds (s : List Char) : Except ReadError Moment :=
  match Real.read s with
  | some x => Moment.ofSeconds x
  | none => .error (.badEpochSeconds (String.ofList s))

/-- Reads a moment; white space around it is passed over. -/
def read (format : TimestampFormat) (text : String) : Except ReadError Moment :=
  let s := Text.trim Text.isBlank text.toList
  match format with
  | .dateTime => readDateTime s
  | .httpDate => readHttpDate s
  | .epochSeconds => readEpochSeconds s

end Timestamp

end Wireform
