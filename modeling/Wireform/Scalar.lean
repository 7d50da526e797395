import Wireform.Utf8
import Wireform.Value.Display

/-
  Wireform scalars: booleans, numbers and enum members as texts of headers, query values and labels.
  Every value has one text.
-/

namespace Wireform

/-- The kinds of booleans and numbers. -/
inductive ScalarKind where
  | flag
  | whole
  | real
  | decimal
  deriving DecidableEq, Repr

namespace ScalarKind

def name : ScalarKind → String
  | flag => "bool"
  | whole => "int"
  | real => "float"
  | decimal => "decimal"

def ofName? (s : String) : Option ScalarKind := [flag, whole, real, decimal].find? (·.name = s)

end ScalarKind

namespace Scalar

/-! ## Writing -/

/-- The text of a double, with names of their own for what is no number. -/
def realText : Double → String
  | .nan => "NaN"
  | .infinite negative => if negative then "-Infinity" else "Infinity"
  | x => String.ofList x.text

/-- The text of a number, which an enum member may have stood for. -/
def numberText : Value → Except WriteError String
  | .flag b => .ok (if b then "True" else "False")
  | .whole n => Value.wholeText n
  | .decimal d => .ok (String.ofList d.text)
  | .real x => .ok (realText x)
  | v => .error (.notNumeric v.fullKindName)

/-- The text of a boolean or number. -/
def write : Value → Except WriteError String
  | .flag b => .ok (if b then "true" else "false")
  | .member _ _ v => numberText v
  | v => numberText v

/-- The text of an enum member's value; what is no member stays as it is. -/
def memberText : Value → Except WriteError Value
  | .member _ _ v => v.plain.map .text
  | v => .ok v

/-- Octets as base64 text, where a text gives its UTF-8 octets. -/
def base64Text : Value → Except WriteError String
  | .blob b => .ok (Base64.text b)
  | .text s => .ok (Base64.text (Utf8.ofString s))
  | v => .error (.notOctets v.fullKindName)

/-! ## Reading -/

def readFlag (s : String) : Except ReadError Bool :=
  if s = "true" then .ok true
  else if s = "false" then .ok false
  else .error (.notBoolean s)

def readReal (s : String) : Except ReadError Double :=
  if s = "NaN" then .ok .nan
  else if s = "Infinity" then .ok (.infinite false)
  else if s = "-Infinity" then .ok (.infinite true)
  else match Real.read s.toList with
    | some x => .ok x
    | none => .error (.notReal s)

def readDecimal (s : String) : Except ReadError Decimal :=
  match Decimal.read? s.toList with
  | some d => .ok d
  | none => .error .badDecimal

/-- The text without white space around it. -/
def strip (s : String) : String := String.ofList (Text.trim Text.isBlank s.toList)

/-- Reads a boolean or number; white space around it is passed over. -/
def read (kind : ScalarKind) (text : String) : Except ReadError Value :=
  let s := strip text
  match kind with
  | .flag => (readFlag s).map .flag
  | .whole => (Whole.ofText s).map .whole
  | .real => (readReal s).map .real
  | .decimal => (readDecimal s).map .decimal

end Scalar

/-- A closed set of named values; of members with one value the first is the one that is read. -/
structure Enumeration where
  name : String
  members : List (String × Value)
  deriving Repr

namespace Enumeration

/-- The first member with the value `s`. -/
def ofText? (e : Enumeration) (s : String) : Option Value :=
  (e.members.find? fun m => m.2.isText s).map fun m => .member e.name m.1 m.2

/-- Reads a member; unless `strict`, a text that is none is kept. -/
def read (e : Enumeration) (strict : Bool) (s : String) : Except ReadError Value :=
  match e.ofText? s with
  | some v => .ok v
  | none => if strict then .error (.notMember (Text.quoted s) e.name) else .ok (.text s)

end Enumeration

/-! ## Base64 texts -/

namespace Scalar

/-- The octets of a base64 text. -/
def readBase64 (s : String) : Except ReadError Bytes :=
  if !s.toList.all Text.isAscii then .error .notAscii
  else match Base64.decode s.toList with
    | some b => .ok b
    | none => .error .badBase64

/-- The text whose UTF-8 octets stand in a base64 text. -/
def readBase64Text (s : String) : Except ReadError String := do
  match Utf8.toString? (← readBase64 s) with
  | some t => return t
  | none => throw .badUtf8

end Scalar

/-- How the text of one element is read. -/
inductive Converter where
  | plain
  | scalar (kind : ScalarKind)
  | timestamp (format : TimestampFormat)
  | base64
  | base64Text
  | member (enumeration : Enumeration) (strict : Bool)

def Converter.read : Converter → String → Except ReadError Value
  | plain, s => .ok (.text s)
  | scalar kind, s => Scalar.read kind s
  | timestamp format, s => (Timestamp.read format s).map .moment
  | base64, s => (Scalar.readBase64 s).map .blob
  | base64Text, s => (Scalar.readBase64Text s).map .text
  | member e strict, s => e.read strict s

end Wireform
