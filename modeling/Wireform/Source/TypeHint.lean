import Wireform.Json.Whole
import Wireform.Source.Definition

/-
  Wireform source text: type hints. A class that is not defined yet stands in quotes. The hint of a
  list or a map is made by a call inside its own, so there is none where these are more than a stack
  has room for, and none at all where lists and maps hold each other without end.
-/

namespace Wireform

/-- Why no module is generated. -/
inductive GenerateError where
  | model (e : ModelError)
  | plan (e : PlanError)
  | number (e : WholeFault)
  | noHint (kind : ShapeKind)
  | tooDeep
  deriving DecidableEq, Repr

def GenerateError.message : GenerateError → String
  | model e => e.message
  | plan e => e.message
  | number e => e.message
  | noHint kind =>
    "<ShapeType." ++ Text.uppered kind.name ++ ": " ++ Text.quoted kind.name ++ ">"
  | tooDeep => "maximum recursion depth exceeded while calling a Python object"

/-- An error of an analysis as an error of generation. -/
def GenerateError.lift {α : Type} (x : Except AnalysisError α) : Except GenerateError α :=
  x.mapError fun e => .plan (.analysis e)

namespace Source

inductive TypeHint where
  | builtin (name : String)
  | class_ (name : String)
  | forward (name : String)
  | list (element : TypeHint)
  | dict (value : TypeHint)
  deriving DecidableEq, Repr

namespace TypeHint

def text : TypeHint → String
  | builtin name => name
  | class_ name => name
  | forward name => "\"" ++ name ++ "\""
  | list a => "list[" ++ a.text ++ "]"
  | dict a => "dict[str, " ++ a.text ++ "]"

/-- The hint of a kind without parts. -/
def ofKind? : ShapeKind → Option String
  | .blob => some "bytes"
  | .boolean => some "bool"
  | .string => some "str"
  | .timestamp => some "datetime"
  | .byte | .short | .integer | .long | .bigInteger => some "int"
  | .float | .double => some "float"
  | .bigDecimal => some "Decimal"
  | .document => some "Any"
  | _ => none

/-- The hint of a class; `defined` holds the ids of those that come before, if that matters. -/
def ofClass (defined : Option (List String)) (s : Shape) : TypeHint :=
  if s.kind.isAggregate && defined.any fun ids => !ids.contains s.id then forward (classOf s)
  else class_ (classOf s)

/-- The hint of a shape, on a stack with room for a number of calls inside each other. -/
def ofShapeWithin (model : Model) (defined : Option (List String)) : Nat → Shape →
    Except GenerateError TypeHint
  | 0, _ => .error .tooDeep
  | room + 1, s =>
    if s.isStreamingBlob then .ok (builtin "_m.ByteStream")
    else if s.isEventStream then .ok (builtin "Any")
    else if s.isEnum || s.kind.isAggregate then .ok (ofClass defined s)
    else if s.kind.isCollection then do
      let element ← GenerateError.lift (model.targetOf s.element)
      return list (← ofShapeWithin model defined room element)
    else if s.kind = .map then do
      let value ← GenerateError.lift (model.targetOf s.element)
      return dict (← ofShapeWithin model defined room value)
    else match ofKind? s.kind with
      | some name => .ok (builtin name)
      | none => .error (.noHint s.kind)

/-- The calls of hints inside each other that a stack has room for: it takes a thousand calls, and
some twenty lead to the first hint. -/
def stackRoom : Nat := 980

/-- The hint of a shape. -/
def ofShape (model : Model) (defined : Option (List String)) (s : Shape) :
    Except GenerateError TypeHint :=
  ofShapeWithin model defined stackRoom s

/-- The hint of a member's value where every class is defined. -/
def ofMember (model : Model) (m : Member) : Except GenerateError TypeHint := do
  ofShape model none (← GenerateError.lift (model.targetOf m))

end TypeHint

end Source

end Wireform
