import Wireform.Scalar

/-
  Wireform schemas: the fields of a structure that is carried as a JSON object, each with its name
  on the wire and its kind. A field may be unset whatever its kind.
-/

namespace Wireform

/-- What a field holds. A structure has a type name, and fields with a name, a wire name and a
kind. -/
inductive FieldKind where
  | text
  | whole
  | texts
  | timestamp (format : TimestampFormat)
  | blob
  | member (enumeration : Enumeration)
  | record (type : String) (fields : List (String × String × FieldKind))

/-- A structure's type name and its fields. -/
structure Schema where
  type : String
  fields : List (String × String × FieldKind)

namespace Schema

/-- The record with every field unset. -/
def unset (s : Schema) : Value := .record s.type (s.fields.map fun f => (f.1, .null))

end Schema

/-- The value of a field; one that is not there is unset. -/
def Value.field (name : String) : Value → Value
  | .record _ fields => (Entries.get? name fields).getD .null
  | _ => .null

end Wireform
