import Wireform.Value

/-
  Wireform values as texts: `plain` is the text that a value stands for, and `display` is how
  messages show it, with quotes around texts and the kind in front where brackets do not tell it.
-/

namespace Wireform

/-! ## Moments -/

namespace Moment

/-- A length of time as the days, seconds and microseconds that are not zero. -/
def durationText (micros : Int) : String :=
  let days := Int.fdiv micros microsPerDay
  let rest := (Int.fmod micros microsPerDay).toNat
  let parts : List (String × Int) := [("days=", days), ("seconds=", rest / microsPerSecond),
    ("microseconds=", rest % microsPerSecond)]
  "datetime.timedelta(" ++ ", ".intercalate ((parts.filter fun p => p.2 ≠ 0).map fun p =>
    p.1 ++ String.ofList (Whole.digits p.2)) ++ ")"

/-- The zone of an offset. -/
def zoneText (offset : Int) : String :=
  if offset = 0 then "datetime.timezone.utc"
  else "datetime.timezone(" ++ durationText offset ++ ")"

/-- The numbers of a moment, where seconds and microseconds of zero are left out at the end, and
its zone. -/
def constructed (m : Moment) : String :=
  let d := m.date
  let c := m.clock
  let small := if c.micro ≠ 0 then [c.second, c.micro] else if c.second ≠ 0 then [c.second] else []
  let numbers := [d.year, d.month, d.day, c.hour, c.minute] ++ small
  "datetime.datetime(" ++ ", ".intercalate (numbers.map (fun n => String.ofList (Text.ofNat n)) ++
    (m.offset.map fun o => "tzinfo=" ++ zoneText o).toList) ++ ")"

end Moment

namespace Value

/-! ## Octets -/

/-- One octet between the quotes `q`. -/
def shownByte (q : Char) (b : UInt8) : List Char :=
  let c := Char.ofNat b.toNat
  if c = q || c = '\\' then ['\\', c]
  else if c = '\n' then ['\\', 'n']
  else if c = '\r' then ['\\', 'r']
  else if c = '\t' then ['\\', 't']
  else if 32 ≤ c.toNat && c.toNat < 127 then [c]
  else '\\' :: 'x' :: Text.hexPadded 2 b.toNat

/-- How messages show octets: a `b` and the octets in quotes. -/
def shownBytes (b : Bytes) : String :=
  let q := Text.quoteMark b.toChars
  String.ofList ('b' :: q :: b.flatMap (shownByte q) ++ [q])

/-! ## Values -/

mutual

/-- How messages show a value. -/
def display : Value → Except WriteError String
  | null => .ok "None"
  | flag b => .ok (if b then "True" else "False")
  | whole n => wholeText n
  | real x => .ok (String.ofList x.text)
  | decimal d => .ok ("Decimal('" ++ String.ofList d.text ++ "')")
  | text s => .ok (Text.quoted s)
  | blob b => .ok (shownBytes b)
  | moment m => .ok m.constructed
  | member type name v => do
    let shown ← v.display
    return "<" ++ type ++ "." ++ name ++ ": " ++ shown ++ ">"
  | list xs => do
    let shown ← displayItems xs
    return Text.bracketed shown
  | map fields => do
    let shown ← displayEntries fields
    return "\x7b" ++ ", ".intercalate shown ++ "\x7d"
  | record type fields => do
    let shown ← displayFields fields
    return type ++ "(" ++ ", ".intercalate shown ++ ")"

def displayItems : List Value → Except WriteError (List String)
  | [] => .ok []
  | v :: r => do
    let shown ← v.display
    let rest ← displayItems r
    return shown :: rest

/-- Entries with their keys in quotes. -/
def displayEntries : List (String × Value) → Except WriteError (List String)
  | [] => .ok []
  | (k, v) :: r => do
    let shown ← v.display
    let rest ← displayEntries r
    return (Text.quoted k ++ ": " ++ shown) :: rest

/-- Fields behind their names. -/
def displayFields : List (String × Value) → Except WriteError (List String)
  | [] => .ok []
  | (name, v) :: r => do
    let shown ← v.display
    let rest ← displayFields r
    return (name ++ "=" ++ shown) :: rest

end

/-- The text that a value stands for; the others are shown as in messages. -/
def plain : Value → Except WriteError String
  | text s => .ok s
  | decimal d => .ok (String.ofList d.text)
  | moment m => .ok (String.ofList m.display)
  | member type name _ => .ok (type ++ "." ++ name)
  | v => v.display

end Value

end Wireform
