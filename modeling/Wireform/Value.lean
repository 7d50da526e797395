import Wireform.Base64
import Wireform.Json.Writer
import Wireform.Number.Decimal
import Wireform.Time.Timestamp

/-
  Wireform values: what a modeled shape holds before it is written or after it has been read.
-/

namespace Wireform

inductive Value where
  | null
  | flag (b : Bool)
  | whole (n : Int)
  | real (x : Double)
  | decimal (d : Decimal)
  | text (s : String)
  | blob (b : Bytes)
  | moment (m : Moment)
  | member (type name : String) (value : Value)
  | list (items : List Value)
  | map (fields : List (String × Value))
  | record (type : String) (fields : List (String × Value))
  deriving Inhabited, Repr

/-- Why a value has no text on the wire. -/
inductive WriteError where
  | tooManyDigits
  | momentOutOfRange
  | notEncodable (type : String)
  | notNumeric (type : String)
  | notOctets (type : String)
  | noMember (type name : String)
  deriving DecidableEq, Repr

def WriteError.message : WriteError → String
  | tooManyDigits => Whole.tooLongToWrite
  | momentOutOfRange => ""
  | notEncodable type => type ++ " is not JSON serializable"
  | notNumeric type => "must be real number, not " ++ type
  | notOctets type => "a bytes-like object is required, not '" ++ type ++ "'"
  | noMember type name => "'" ++ type ++ "' object has no attribute '" ++ name ++ "'"

namespace Value

/-- The name of a value's kind in messages. -/
def kindName : Value → String
  | null => "NoneType"
  | flag _ => "bool"
  | whole _ => "int"
  | real _ => "float"
  | decimal _ => "Decimal"
  | text _ => "str"
  | blob _ => "bytes"
  | moment _ => "datetime"
  | member type _ _ => type
  | list _ => "list"
  | map _ => "dict"
  | record type _ => type

/-- The name of a value's kind behind that of the module it belongs to, if it belongs to one. -/
def fullKindName : Value → String
  | decimal d => "decimal." ++ (decimal d).kindName
  | moment m => "datetime." ++ (moment m).kindName
  | v => v.kindName

/-- A whole number's text, if it is short enough. -/
def wholeText (n : Int) : Except WriteError String :=
  match Whole.write? n with
  | some s => .ok (String.ofList s)
  | none => .error .tooManyDigits

/-- The timestamp's text, if UTC lies in range. -/
def timestampText (format : TimestampFormat) (m : Moment) : Except WriteError String :=
  match Timestamp.write? format m with
  | some s => .ok s
  | none => .error .momentOutOfRange

mutual

/-- The document of a value: octets become base64 text, moments date-times and enum members their
values. -/
def toJson : Value → Except WriteError Json
  | null => .ok .null
  | flag b => .ok (.flag b)
  | whole n => if (Whole.write? n).isSome then .ok (.whole n) else .error .tooManyDigits
  | real x => .ok (.real x)
  | text s => .ok (.text s)
  | blob b => .ok (.text (Base64.text b))
  | moment m => (timestampText .dateTime m).map .text
  | member _ _ v => v.toJson
  | list xs => (listToJson xs).map .list
  | map fields => (fieldsToJson fields).map .map
  | decimal d => .error (.notEncodable (decimal d).kindName)
  | record type _ => .error (.notEncodable type)

def listToJson : List Value → Except WriteError (List Json)
  | [] => .ok []
  | v :: r => do
    let j ← v.toJson
    let js ← listToJson r
    return j :: js

def fieldsToJson : List (String × Value) → Except WriteError (List (String × Json))
  | [] => .ok []
  | (k, v) :: r => do
    let j ← v.toJson
    let js ← fieldsToJson r
    return (k, j) :: js

end

mutual

/-- A document as a value. -/
def ofJson : Json → Value
  | .null => null
  | .flag b => flag b
  | .whole n => whole n
  | .real x => real x
  | .text s => text s
  | .list xs => list (ofJsonList xs)
  | .map fields => map (ofJsonFields fields)

def ofJsonList : List Json → List Value
  | [] => []
  | j :: r => ofJson j :: ofJsonList r

def ofJsonFields : List (String × Json) → List (String × Value)
  | [] => []
  | (k, j) :: r => (k, ofJson j) :: ofJsonFields r

end

def isNull : Value → Bool
  | null => true
  | _ => false

/-- Whether it is the text `s`. -/
def isText (s : String) : Value → Bool
  | text t => t = s
  | _ => false

end Value

end Wireform
