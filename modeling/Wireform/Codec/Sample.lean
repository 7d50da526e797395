import Wireform.Codec.Schema

/-
  Wireform sample schemas: a structure with a field of every kind, and one that it holds.
-/

namespace Wireform.Sample

def color : Enumeration := ⟨"Color", [("RED", .text "red"), ("GREEN", .text "green")]⟩

def ownerFields : List (String × String × FieldKind) :=
  [("id", "Id", .text), ("display_name", "displayName", .text)]

def owner : Schema := ⟨"Owner", ownerFields⟩

def sample : Schema where
  type := "Sample"
  fields := [
    ("name", "Name", .text),
    ("count", "Count", .whole),
    ("tags", "Tags", .texts),
    ("created", "Created", .timestamp .epochSeconds),
    ("updated", "Updated", .timestamp .dateTime),
    ("data", "Data", .blob),
    ("color", "Color", .member color),
    ("owner", "Owner", .record "Owner" ownerFields)]

/-- Both structures. -/
def schemas : List Schema := [sample, owner]

end Wireform.Sample
