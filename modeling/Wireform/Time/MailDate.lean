import Wireform.Number.Whole
import Wireform.Text.Case
import Wireform.Time.Moment

/-
  Wireform mail dates: the date form of message headers with all the older spellings, such as a
  missing weekday, a two-digit year, the month before the day, a named zone or none.
-/

namespace Wireform.MailDate

open Moment (Clock)

inductive Fault where
  | malformed
  | outOfRange
  deriving DecidableEq

def monthNames : List String :=
  ["jan", "feb", "mar", "apr", "may", "jun", "jul", "aug", "sep", "oct", "nov", "dec",
    "january", "february", "march", "april", "may", "june", "july", "august", "september",
    "october", "november", "december"]

def weekdayNames : List String := ["mon", "tue", "wed", "thu", "fri", "sat", "sun"]

/-- The offsets of named zones in hours and minutes, as they would be written. -/
def zoneOffsets : List (String × Int) :=
  [("UT", 0), ("UTC", 0), ("GMT", 0), ("Z", 0), ("AST", -400), ("ADT", -300), ("EST", -500),
    ("EDT", -400), ("CST", -600), ("CDT", -500), ("MST", -700), ("MDT", -600), ("PST", -800),
    ("PDT", -700)]

/-- The five fields of a date as they stand in the text. -/
structure Fields where
  day : List Char
  month : List Char
  year : List Char
  time : List Char
  zone : List Char

def endsInComma (s : List Char) : Bool := s.getLast? = some ','

def dropComma (s : List Char) : List Char := if endsInComma s then s.dropLast else s

/-- The words after the weekday, which may touch the day with a comma between. -/
def dropWeekday : List (List Char) → List (List Char)
  | [] => []
  | w :: ws =>
    if endsInComma w || weekdayNames.contains (String.ofList (Text.lower w)) then ws
    else ((Text.pieces ',' w).getLastD []) :: ws

/-- Parts a day, month and year joined by dashes. -/
def splitDate : List (List Char) → List (List Char)
  | [d, t, z] => match Text.pieces '-' d with
    | [a, b, c] => [a, b, c, t, z]
    | _ => [d, t, z]
  | ws => ws

/-- Parts a zone from the time it is written behind. -/
def splitZone : List (List Char) → List (List Char)
  | [d, m, y, t] =>
    let sign := if t.contains '+' then '+' else '-'
    let i := t.findIdx (· = sign)
    if 0 < i && i < t.length then [d, m, y, t.take i, t.drop i] else [d, m, y, t, []]
  | ws => ws

def fields? (s : List Char) : Option Fields :=
  match splitZone (splitDate (dropWeekday (Text.words Text.isBlank s))) with
  | d :: m :: y :: t :: z :: _ =>
    if d.isEmpty || m.isEmpty || y.isEmpty then none else some ⟨d, m, y, t, z⟩
  | _ => none

/-- The number of a month from 1 on. -/
def monthNumber? (name : List Char) : Option Nat :=
  (monthNames.idxOf? (String.ofList (Text.lower name))).map (· % 12 + 1)

/-- The day and the number of the month, which may stand in either order. -/
def dayAndMonth? (f : Fields) : Option (List Char × Nat) :=
  match monthNumber? f.month with
  | some m => some (f.day, m)
  | none => (monthNumber? f.day).map (f.month, ·)

/-- Puts year, time and zone into their places; a year that is none changes places with the zone. -/
def arrange? (f : Fields) : Option Fields :=
  let colon := f.year.findIdx (· = ':')
  let (year, time) := if 0 < colon && colon < f.year.length then (f.time, f.year)
    else (f.year, f.time)
  if dropComma year = [] then none
  else
    let year := dropComma year
    let f := { f with time := dropComma time }
    if year.head?.any Text.isDigit then some { f with year }
    else some { f with year := f.zone, zone := year }

/-- Hours, minutes and seconds; points may stand for the colons. -/
def timeParts? (s : List Char) : Option (List (List Char)) :=
  match Text.pieces ':' s with
  | [h, m] => some [h, m, ['0']]
  | [h, m, sec] => some [h, m, sec]
  | [_] => match Text.pieces '.' s with
    | [h, m] => some [h, m, ['0']]
    | [h, m, sec] => some [h, m, sec]
    | _ => none
  | _ => none

/-- The full form of a year of two digits. -/
def fullYear (y : Int) : Int := if 100 ≤ y then y else if 68 < y then y + 1900 else y + 2000

/-- The offset of a zone in seconds; none if the zone is unknown or is minus zero. -/
def zoneSeconds? (zone : List Char) : Option Int :=
  let name := Text.upper zone
  let written := match zoneOffsets.lookup (String.ofList name) with
    | some o => some o
    | none => match Whole.read name with
      | .ok o => if o = 0 && name.head? = some '-' then none else some o
      | .error _ => none
  written.map fun o =>
    let n : Int := o.natAbs / 100 * 3600 + o.natAbs % 100 * 60
    if o < 0 then -n else n

/-- The most days that an offset may last before it cannot be expressed at all. -/
def maxOffsetDays : Int := 999999999

/-- The largest field that is looked at as a number. -/
def maxField : Int := 2147483647

def readWhole (s : List Char) : Except Fault Int := (Whole.read s).mapError fun _ => .malformed

/-- The moment with the given numbers, which need not be in range. -/
def build (numbers : List Int) (offset : Option Int) : Except Fault Moment :=
  if offset.any fun o => maxOffsetDays < (Int.fdiv o 86400).natAbs then .error .outOfRange
  else if offset.any fun o => 86400 ≤ o.natAbs then .error .malformed
  else if numbers.any fun n => maxField < n || n < -maxField - 1 then .error .outOfRange
  else if numbers.any (· < 0) then .error .malformed
  else match numbers.map Int.toNat with
    | [y, m, d, h, min, s] =>
      match Moment.ofParts? ⟨y, m, d⟩ ⟨h, min, s, 0⟩
          (offset.map (· * Moment.microsPerSecond)) with
      | some moment => .ok moment
      | none => .error .malformed
    | _ => .error .malformed

/-- Reads a date. -/
def read (s : List Char) : Except Fault Moment := do
  let some f := fields? s | throw .malformed
  let some (day, month) := dayAndMonth? f | throw .malformed
  let some f := arrange? f | throw .malformed
  let some time := timeParts? f.time | throw .malformed
  let year ← readWhole f.year
  let day ← readWhole (dropComma day)
  let time ← time.mapM readWhole
  build ([fullYear year, month, day] ++ time) (zoneSeconds? f.zone)

end Wireform.MailDate
