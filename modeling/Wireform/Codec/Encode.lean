import Wireform.Codec.Schema

/-
  Wireform codec, writing: a structure becomes an object of its fields, in order, under their wire
  names. The fields that are unset are left out of an outermost object; structures inside it keep
  them as nulls.
-/

namespace Wireform.Codec

/-- The media type of what the codec writes. -/
def mediaType : String := "application/json"

/-- The text of a moment. -/
def timestampText (format : TimestampFormat) : Value → Except WriteError String
  | .moment m => Value.timestampText format m
  | v => .error (.noMember v.fullKindName "tzinfo")

/-- A timestamp as it stands in an object: text, or a double for seconds since the epoch. -/
def timestampValue (format : TimestampFormat) : Value → Except WriteError Value
  | .null => .ok .null
  | v => do
    let text ← timestampText format v
    match format with
    | .epochSeconds => return .real ((Real.read text.toList).getD .nan)
    | _ => return .text text

/-- Octets as they stand in an object. -/
def blobValue : Value → Except WriteError Value
  | .null => .ok .null
  | v => (Scalar.base64Text v).map .text

/-- The fields of a type of structure. -/
def fieldsOf (schemas : List Schema) (type : String) : List (String × String × FieldKind) :=
  ((schemas.find? fun s => s.type = type).map (·.fields)).getD []

mutual

/-- A value with an object in place of every structure, in lists and maps too. -/
def unfold (schemas : List Schema) : Value → Except WriteError Value
  | .list xs => (unfoldItems schemas xs).map .list
  | .map entries => (unfoldEntries schemas entries).map .map
  | .record type fields => (unfoldFields schemas (fieldsOf schemas type) fields).map .map
  | v => .ok v

def unfoldItems (schemas : List Schema) : List Value → Except WriteError (List Value)
  | [] => .ok []
  | v :: r => do
    let x ← unfold schemas v
    let xs ← unfoldItems schemas r
    return x :: xs

def unfoldEntries (schemas : List Schema) : List (String × Value) →
    Except WriteError (List (String × Value))
  | [] => .ok []
  | (k, v) :: r => do
    let x ← unfold schemas v
    let xs ← unfoldEntries schemas r
    return (k, x) :: xs

/-- The fields of a structure under their wire names. -/
def unfoldFields (schemas : List Schema) (kinds : List (String × String × FieldKind)) :
    List (String × Value) → Except WriteError (List (String × Value))
  | [] => .ok []
  | (name, v) :: r => do
    let x ← match Entries.get? name kinds with
      | some (_, .timestamp format) => timestampValue format v
      | some (_, .blob) => blobValue v
      | _ => unfold schemas v
    let xs ← unfoldFields schemas kinds r
    return (((Entries.get? name kinds).map (·.1)).getD name, x) :: xs

end

/-- The fields that are not null. -/
def setFields (fields : List (String × Value)) : List (String × Value) :=
  fields.filter fun f => !f.2.isNull

/-- The record with every field outside `members` unset. -/
def restrict (members : Option (List String)) : Value → Value
  | .record type fields => .record type (fields.map fun f =>
      (f.1, if members.any fun ms => !ms.contains f.1 then .null else f.2))
  | v => v

/-- The object of an outermost structure; other values stay as they are. -/
def outermost (schemas : List Schema) : Value → Except WriteError Value
  | .record type fields => unfold schemas (.record type fields)
  | v => .ok v

/-- The text of a value, of its `members` only if they are given and it is a structure. -/
def encode (schemas : List Schema) (members : Option (List String)) (v : Value) :
    Except WriteError String := do
  let v := match ← outermost schemas (restrict members v) with
    | .map fields => Value.map (setFields fields)
    | v => v
  return (← v.toJson).compact

end Wireform.Codec
