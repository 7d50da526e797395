import Wireform.Json.Writer

/-
  Wireform models: the shapes of a service in the order of their declaration. A shape has members
  with targets, and an operation refers to its input, output and errors. Traits are documents under
  their ids.
-/

namespace Wireform

/-! ## Kinds -/

inductive ShapeKind where
  | blob | boolean | string | enum | intEnum | timestamp
  | byte | short | integer | long | float | double | bigInteger | bigDecimal
  | document | list | set | map | struct | union | operation | service
  deriving DecidableEq, Repr

namespace ShapeKind

def name : ShapeKind → String
  | blob => "blob"
  | boolean => "boolean"
  | string => "string"
  | enum => "enum"
  | intEnum => "intEnum"
  | timestamp => "timestamp"
  | byte => "byte"
  | short => "short"
  | integer => "integer"
  | long => "long"
  | float => "float"
  | double => "double"
  | bigInteger => "bigInteger"
  | bigDecimal => "bigDecimal"
  | document => "document"
  | list => "list"
  | set => "set"
  | map => "map"
  | struct => "structure"
  | union => "union"
  | operation => "operation"
  | service => "service"

def all : List ShapeKind := [blob, boolean, string, enum, intEnum, timestamp, byte, short, integer,
  long, float, double, bigInteger, bigDecimal, document, list, set, map, struct, union, operation,
  service]

def ofName? (s : String) : Option ShapeKind := all.find? (·.name = s)

/-- Lists and sets. -/
def isCollection (k : ShapeKind) : Bool := k = list || k = set

/-- Structures and unions. -/
def isAggregate (k : ShapeKind) : Bool := k = struct || k = union

end ShapeKind

/-! ## Traits -/

/-- Traits under their ids. -/
abbrev Traits := List (String × Json)

namespace Trait

def http : String := "smithy.api#http"
def httpHeader : String := "smithy.api#httpHeader"
def httpPrefixHeaders : String := "smithy.api#httpPrefixHeaders"
def httpQuery : String := "smithy.api#httpQuery"
def httpQueryParams : String := "smithy.api#httpQueryParams"
def httpLabel : String := "smithy.api#httpLabel"
def httpPayload : String := "smithy.api#httpPayload"
def httpResponseCode : String := "smithy.api#httpResponseCode"
def httpError : String := "smithy.api#httpError"
def error : String := "smithy.api#error"
def sensitive : String := "smithy.api#sensitive"
def mediaType : String := "smithy.api#mediaType"
def timestampFormat : String := "smithy.api#timestampFormat"
def streaming : String := "smithy.api#streaming"
def required : String := "smithy.api#required"
def enum : String := "smithy.api#enum"
def enumValue : String := "smithy.api#enumValue"
def jsonName : String := "smithy.api#jsonName"
def documentation : String := "smithy.api#documentation"
def httpChecksum : String := "aws.protocols#httpChecksum"

end Trait

namespace Traits

def has (t : Traits) (id : String) : Bool := t.any fun p => p.1 = id

/-- The document of a trait; one that is null counts as absent. -/
def get? (t : Traits) (id : String) : Option Json :=
  match Entries.get? id t with
  | some .null => none
  | j => j

/-- The text of a trait. -/
def text? (t : Traits) (id : String) : Option String := (t.get? id).bind Json.asText?

def erase (t : Traits) (id : String) : Traits := t.filter fun p => p.1 ≠ id

end Traits

/-! ## Shapes -/

/-- A named slot of a shape. -/
structure Member where
  name : String
  target : String
  container : String
  traits : Traits
  deriving BEq, Inhabited, Repr

namespace Member

def id (m : Member) : String := m.container ++ "$" ++ m.name

def without (trait : String) (m : Member) : Member := { m with traits := m.traits.erase trait }

end Member

structure Shape where
  id : String
  kind : ShapeKind
  traits : Traits
  members : List Member
  input : Option String
  output : Option String
  errors : List String
  operations : List String
  deriving BEq, Repr

/-- A key that a document lacks, or a shape that a model lacks. -/
inductive Missing where
  | key (name : String)
  | shape (id : String)
  deriving DecidableEq, Repr

def Missing.message : Missing → String
  | key name => Text.quoted name
  | shape id => Text.quoted ("shape not found in model: " ++ id)

namespace Shape

/-- A shape of a kind with nothing in it. -/
def bare (id : String) (kind : ShapeKind) : Shape := ⟨id, kind, [], [], none, none, [], []⟩

/-- The id behind its first `#`, or all of it. -/
def name (s : Shape) : String :=
  match Text.cut '#' s.id.toList with
  | (_, some r) => String.ofList r
  | (_, none) => s.id

/-- The id before its first `#`. -/
def space (s : Shape) : String := String.ofList (Text.cut '#' s.id.toList).1

def member? (s : Shape) (name : String) : Option Member := s.members.find? (·.name = name)

/-- The member that holds the elements of a list or set, or the values of a map. -/
def element (s : Shape) : Member := s.members.getLastD ⟨"", "", s.id, []⟩

def without (trait : String) (s : Shape) : Shape := { s with traits := s.traits.erase trait }

def isEnum (s : Shape) : Bool :=
  s.kind = .enum || s.kind = .intEnum || (s.kind = .string && s.traits.has Trait.enum)

def isString (s : Shape) : Bool := s.kind = .string || s.kind = .enum

def isStreamingBlob (s : Shape) : Bool := s.kind = .blob && s.traits.has Trait.streaming

def isEventStream (s : Shape) : Bool := s.kind = .union && s.traits.has Trait.streaming

/-- The name and value of an entry of an `enum` trait; without a name the value names it. -/
def traitEntry (j : Json) : Except Missing (String × Json) :=
  match j.get? "value" with
  | none => .error (.key "value")
  | some v =>
    let name := match j.get? "name" with
      | some n => if n.isTruthy then n else v
      | none => v
    .ok (name.plain, v)

/-- The names and wire values of an enum. -/
def enumValues (s : Shape) : Except Missing (List (String × Json)) :=
  if s.kind = .enum || s.kind = .intEnum then
    .ok (s.members.map fun m =>
      (m.name, (Entries.get? Trait.enumValue m.traits).getD (.text m.name)))
  else (((s.traits.get? Trait.enum).getD .null).asList).mapM traitEntry

end Shape

/-! ## Models -/

/-- The shapes of a model; each id is declared once. -/
structure Model where
  shapes : List Shape
  deriving BEq, Repr

namespace Model

def find? (m : Model) (id : String) : Option Shape := m.shapes.find? (·.id = id)

def get (m : Model) (id : String) : Except Missing Shape :=
  match m.find? id with
  | some s => .ok s
  | none => .error (.shape id)

/-- The shape that a member refers to. -/
def target (m : Model) (member : Member) : Except Missing Shape := m.get member.target

/-- Puts a shape in the place of the one with its id, or at the end. -/
def put (m : Model) (s : Shape) : Model :=
  if m.shapes.any (·.id = s.id) then
    ⟨m.shapes.map fun t => if t.id = s.id then s else t⟩
  else ⟨m.shapes ++ [s]⟩

/-- The shapes of a kind in the order of their ids. -/
def ofKind (m : Model) (kind : ShapeKind) : List Shape :=
  (m.shapes.filter (·.kind = kind)).mergeSort fun a b => !(b.id < a.id)

def services (m : Model) : List Shape := m.ofKind .service

/-- The operations that a service lists, or else all of them. -/
def operations (m : Model) : Option Shape → Except Missing (List Shape)
  | some service => service.operations.mapM m.get
  | none => .ok (m.ofKind .operation)

/-- The shape that stands for no input or output. -/
def unit : String := "smithy.api#Unit"

/-- The id of an input or output; without one it is the unit shape. -/
def orUnit : Option String → String
  | some id => if id = "" then unit else id
  | none => unit

def input (m : Model) (op : Shape) : Except Missing Shape := m.get (orUnit op.input)

def output (m : Model) (op : Shape) : Except Missing Shape := m.get (orUnit op.output)

def errors (m : Model) (op : Shape) : Except Missing (List Shape) := op.errors.mapM m.get

/-- Whether a member or its target is marked. -/
def isSensitive (m : Model) (member : Member) : Except Missing Bool :=
  if member.traits.has Trait.sensitive then .ok true
  else (m.target member).map fun s => s.traits.has Trait.sensitive

end Model

end Wireform
