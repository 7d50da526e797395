import Wireform.Time.Moment

/-
  Wireform ISO 8601 texts: a calendar or week date, any one character, and a time of day with or
  without colons, a fraction and an offset.
-/

namespace Wireform.IsoReader

open Moment (Clock)

/-- The number written by the first `n` characters, all of them digits, and the rest. -/
def takeDigits (n : Nat) (s : List Char) : Option (Nat × List Char) :=
  let ds := s.take n
  if ds.length = n && ds.all Text.isDigitAscii then
    some (ds.foldl (fun v d => 10 * v + (d.toNat - 48)) 0, s.drop n)
  else none

/-- Where the date ends. It is a week date if a `W` follows the year; of two readings of such a
text the one with a dash before the time is taken. -/
def dateLength (s : List Char) : Nat :=
  if s.length = 7 then 7
  else if s[4]? = some '-' then
    if s[5]? = some 'W' then
      if s[8]? = some '-' && !(10 < s.length && s[10]?.any Text.isDigitAscii) then 10 else 8
    else 10
  else if s[4]? = some 'W' then
    let stop := 7 + ((s.drop 7).takeWhile Text.isDigitAscii).length
    if stop < 9 then stop else if stop % 2 = 0 then 7 else 8
  else 8

/-- Drops a dash that must be there if `dashed`. -/
def dropDash (dashed : Bool) : List Char → Option (List Char)
  | '-' :: r => if dashed then some r else some ('-' :: r)
  | r => if dashed then none else some r

/-- A date with or without dashes. -/
def readDate (s : List Char) : Option Date := do
  let (y, r) ← takeDigits 4 s
  let (dashed, r) := match r with
    | '-' :: r => (true, r)
    | r => (false, r)
  match r with
  | 'W' :: r =>
    let (week, r) ← takeDigits 2 r
    if r.isEmpty then Date.ofWeek? y week 1
    else
      let (day, _) ← takeDigits 1 (← dropDash dashed r)
      Date.ofWeek? y week day
  | r =>
    let (m, r) ← takeDigits 2 r
    let (d, _) ← takeDigits 2 (← dropDash dashed r)
    some ⟨y, m, d⟩

/-- Whether a text ends here. The null character ends it, whatever stands behind. -/
def isEnd (s : List Char) : Bool := s.head?.all (· = '\x00')

/-- The first six digits of a fraction as microseconds; whether there are only digits up to the
end. -/
def readFraction (s : List Char) : Option (Nat × Bool) := do
  let n := min 6 s.length
  let (v, r) ← takeDigits n s
  some (v * Nat.pow 10 (6 - n), isEnd (r.dropWhile Text.isDigitAscii))

/-- The parts of a time of day that have been read, and whether nothing is left over. -/
structure Reading where
  parts : List Nat
  micro : Nat
  complete : Bool

/-- Reads `n + 1` more pairs of digits, then a fraction; one ASCII character may be left over, and
the null character is as good as the end.
`colons` says whether the parts stand between colons, once that is known. -/
def readPairs : Nat → Option Bool → List Nat → List Char → Option Reading
  | n, colons, done, s => do
    let (v, r) ← takeDigits 2 s
    let parts := done ++ [v]
    match r with
    | [] => some ⟨parts, 0, true⟩
    | [c] => if Text.isAscii c then some ⟨parts, 0, isEnd r⟩ else none
    | c :: r' =>
      let colons := colons.getD (c = ':')
      if c ≠ ':' && (c = '.' || c = ',') then
        (readFraction r').map fun (u, all) => ⟨parts, u, all⟩
      else if colons && c ≠ ':' then none
      else
        let next := if colons then r' else c :: r'
        match n with
        | 0 => (readFraction next).map fun (u, all) => ⟨parts, u, all⟩
        | n + 1 => readPairs n (some colons) parts next

/-- Hours, and minutes and seconds if they are there. -/
def readClock (s : List Char) : Option (Clock × Bool) :=
  (readPairs 2 none [] s).map fun r =>
    (⟨r.parts.getD 0 0, r.parts.getD 1 0, r.parts.getD 2 0, r.micro⟩, r.complete)

/-- An offset below one day; one whose seconds are zero is UTC. -/
def readOffset (s : List Char) : Option Int := do
  let (sign, r) ← match s with
    | '+' :: r => some (1, r)
    | '-' :: r => some (-1, r)
    | _ => none
  let (c, complete) ← readClock r
  let seconds : Int := (c.hour * 60 + c.minute) * 60 + c.second
  let micros : Int := if seconds = 0 then 0 else seconds * Moment.microsPerSecond + c.micro
  if complete && micros < Moment.microsPerDay then some (sign * micros) else none

/-- A time of day and its offset if there is one. -/
def readTime (s : List Char) : Option (Clock × Option Int) := do
  let isSign := fun c : Char => c = '+' || c = '-'
  let (c, complete) ← readClock (s.takeWhile fun x => !isSign x)
  let tail := s.dropWhile fun x => !isSign x
  if tail.isEmpty then
    if complete then some (c, none) else none
  else
    let o ← readOffset tail
    some (c, some o)

/-- Reads a moment. Any one character may stand between the date and the time of day. -/
def read (s : List Char) : Option Moment := do
  if s.length < 7 then none
  let d ← readDate (s.take (dateLength s))
  match s.drop (dateLength s) with
  | [] => Moment.ofParts? d ⟨0, 0, 0, 0⟩ none
  | _ :: r =>
    let (clock, offset) ← readTime r
    Moment.ofParts? d clock offset

end Wireform.IsoReader
