import Wireform.Text.Basic

/-
  Wireform calendar: dates of the proleptic Gregorian calendar and their day numbers, where day 1 is
  the first of January of year 1.
-/

namespace Wireform

/-- A date; `isValid` says that the month and the day exist. -/
structure Date where
  year : Nat
  month : Nat
  day : Nat
  deriving DecidableEq, Repr

namespace Date

def isLeap (y : Nat) : Bool := y % 4 = 0 && (y % 100 ≠ 0 || y % 400 = 0)

/-- The lengths of the twelve months. -/
def monthLengths (leap : Bool) : List Nat :=
  [31, if leap then 29 else 28, 31, 30, 31, 30, 31, 31, 30, 31, 30, 31]

/-- Days in the years before `y`, for `y` at least 1. -/
def daysBeforeYear (y : Nat) : Nat :=
  let n := y - 1
  365 * n + n / 4 - n / 100 + n / 400

/-- Days in the months before `m`. -/
def daysBeforeMonth (leap : Bool) (m : Nat) : Nat :=
  ((monthLengths leap).take (m - 1)).foldr (· + ·) 0

def isValid (d : Date) : Bool :=
  1 ≤ d.year && d.year ≤ 9999 && 1 ≤ d.month && d.month ≤ 12 && 1 ≤ d.day &&
    d.day ≤ (monthLengths (isLeap d.year))[d.month - 1]?.getD 0

/-- The number of the day. -/
def number (d : Date) : Nat :=
  daysBeforeYear d.year + daysBeforeMonth (isLeap d.year) d.month + d.day

/-- The month and day of a day counted from zero, over the lengths of the months from `m` on. -/
def monthDay (m n : Nat) : List Nat → Nat × Nat
  | [] => (m, n + 1)
  | k :: ks => if n < k then (m, n + 1) else monthDay (m + 1) (n - k) ks

/-- The date of a day counted from zero within a cycle of 400 years that starts with `first`. -/
def ofCycleDay (first n : Nat) : Date :=
  let century := min (n / 36524) 3
  let n := n - century * 36524
  let four := n / 1461
  let n := n - four * 1461
  let one := min (n / 365) 3
  let n := n - one * 365
  let y := first + 100 * century + 4 * four + one
  let (m, d) := monthDay 1 n (monthLengths (isLeap y))
  ⟨y, m, d⟩

/-- The date of a day number. -/
def ofNumber (n : Nat) : Date := ofCycleDay (400 * ((n - 1) / 146097) + 1) ((n - 1) % 146097)

/-- The year of any day number, also before year 1. -/
def yearOfNumber (n : Int) : Int :=
  400 * Int.fdiv (n - 1) 146097 + (ofCycleDay 1 (Int.fmod (n - 1) 146097).toNat).year

/-- The day of the week, Monday being 0. -/
def weekday (d : Date) : Nat := (d.number + 6) % 7

/-- The number of the Monday that starts the first week of a year. -/
def firstMonday (y : Nat) : Int :=
  let start : Int := (Date.mk y 1 1).number
  let dow := ((start + 6) % 7).toNat
  if dow ≤ 3 then start - dow else start - dow + 7

/-- The date of a day of a numbered week, where both must exist. -/
def ofWeek? (y week day : Nat) : Option Date :=
  let january := (Date.mk y 1 1).weekday
  let long := january = 3 || (january = 2 && isLeap y)
  if 1 ≤ y && 1 ≤ week && (week ≤ 52 || (week = 53 && long)) && 1 ≤ day && day ≤ 7 then
    let n := firstMonday y + (week - 1) * 7 + (day - 1)
    if 1 ≤ n then some (ofNumber n.toNat) else none
  else none

def weekdayNames : List String := ["Mon", "Tue", "Wed", "Thu", "Fri", "Sat", "Sun"]

def monthNames : List String :=
  ["Jan", "Feb", "Mar", "Apr", "May", "Jun", "Jul", "Aug", "Sep", "Oct", "Nov", "Dec"]

end Date

end Wireform
