import Wireform.Time.Calendar

/-
  Wireform moments: what a clock shows, to the microsecond, with its offset from UTC if that is
  known. The clock shows years 1 to 9999.
-/

namespace Wireform

/-- `reading` counts microseconds from the start of year 1 as the clock shows them, and `offset` is
what has to be taken off to get UTC. -/
structure Moment where
  reading : Int
  offset : Option Int
  deriving DecidableEq, Repr

namespace Moment

def microsPerSecond : Nat := 1000000

def microsPerDay : Nat := 86400 * microsPerSecond

/-- The first reading past year 9999. -/
def limit : Int := 3652059 * microsPerDay

/-- The number of the day on which seconds are counted from zero. -/
def epochDay : Nat := 719163

/-- The reading of the start of the epoch. -/
def epoch : Int := (epochDay - 1) * microsPerDay

/-- A time of day. -/
structure Clock where
  hour : Nat
  minute : Nat
  second : Nat
  micro : Nat
  deriving DecidableEq, Repr

def Clock.isValid (c : Clock) : Bool :=
  c.hour < 24 && c.minute < 60 && c.second < 60 && c.micro < microsPerSecond

/-- Microseconds since midnight. -/
def Clock.micros (c : Clock) : Nat :=
  ((c.hour * 60 + c.minute) * 60 + c.second) * microsPerSecond + c.micro

def Clock.ofMicros (n : Nat) : Clock :=
  let s := n / microsPerSecond
  ⟨s / 3600, s / 60 % 60, s % 60, n % microsPerSecond⟩

/-- The moment of a date and a time of day that exist. -/
def ofParts? (d : Date) (c : Clock) (offset : Option Int) : Option Moment :=
  if d.isValid && c.isValid then
    some ⟨((d.number - 1) * microsPerDay + c.micros : Nat), offset⟩
  else none

def date (m : Moment) : Date := Date.ofNumber (m.reading.toNat / microsPerDay + 1)

def clock (m : Moment) : Clock := Clock.ofMicros (m.reading.toNat % microsPerDay)

/-- The same moment on a clock that shows UTC; without an offset the reading is taken as UTC.
There is none if UTC falls outside years 1 to 9999. -/
def utc? (m : Moment) : Option Moment :=
  let r := m.reading - m.offset.getD 0
  if 0 ≤ r && r < limit then some ⟨r, some 0⟩ else none

/-- Two digits. -/
def two (n : Nat) : List Char := Text.padded 2 n

/-- An offset as hours and minutes, with seconds and their fraction where they are not zero. -/
def offsetText (o : Int) : List Char :=
  let c := Clock.ofMicros o.natAbs
  (if o < 0 then '-' else '+') :: two c.hour ++ ':' :: two c.minute ++
    (if c.second = 0 && c.micro = 0 then [] else ':' :: two c.second) ++
    (if c.micro = 0 then [] else '.' :: Text.padded 6 c.micro)

/-- Date and time of day with `mark` between them, the microseconds if `micros` says so, and the
offset. -/
def fieldsText (mark : Char) (micros : Bool) (m : Moment) : List Char :=
  let d := m.date
  let c := m.clock
  Text.padded 4 d.year ++ '-' :: two d.month ++ '-' :: two d.day ++ mark :: two c.hour ++
    ':' :: two c.minute ++ ':' :: two c.second ++
    (if micros then '.' :: Text.padded 6 c.micro else []) ++ (m.offset.map offsetText).getD []

/-- Date, `T`, time of day with six places, and the offset. -/
def isoText : Moment → List Char := fieldsText 'T' true

/-- How messages show a moment: microseconds are left out if they are zero. -/
def display (m : Moment) : List Char := fieldsText ' ' (m.clock.micro ≠ 0) m

end Moment

end Wireform
