import Wireform.Model.Basic

/-
  Wireform models: the shapes that every model may refer to without declaring them.
-/

namespace Wireform.Prelude

def kinds : List (String × ShapeKind) := [
  ("String", .string),
  ("Blob", .blob),
  ("Boolean", .boolean), ("PrimitiveBoolean", .boolean),
  ("Byte", .byte), ("PrimitiveByte", .byte),
  ("Short", .short), ("PrimitiveShort", .short),
  ("Integer", .integer), ("PrimitiveInteger", .integer),
  ("Long", .long), ("PrimitiveLong", .long),
  ("Float", .float), ("PrimitiveFloat", .float),
  ("Double", .double), ("PrimitiveDouble", .double),
  ("BigInteger", .bigInteger),
  ("BigDecimal", .bigDecimal),
  ("Timestamp", .timestamp),
  ("Document", .document),
  ("Unit", .struct)]

def shapes : List Shape := kinds.map fun (name, kind) => .bare ("smithy.api#" ++ name) kind

end Wireform.Prelude
