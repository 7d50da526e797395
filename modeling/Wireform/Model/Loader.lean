import Wireform.Disk
import Wireform.Json.Octets
import Wireform.Model.Prelude

/-
  Wireform models as documents: a map of shapes by id. A document that is loaded declares every
  shape that it refers to, the targets of enum members apart.
-/

namespace Wireform

/-- Why a document gives no model, or a model no service to work on. -/
inductive ModelError where
  | notJson
  | tooManyDigits (digits : Nat)
  | noShapes
  | notAbsolute (id : String)
  | unknownKind (id shown : String)
  | noTarget (member : String)
  | missing (e : Missing)
  | undeclared (id reference : String)
  | unknownProtocol (name known : String)
  | noProtocol (service : String)
  | noService (id : String)
  | notOneService (found : List String)
  | unreadable (path : String) (fault : FileFault)
  deriving DecidableEq, Repr

def ModelError.message : ModelError → String
  | notJson => "model is not valid JSON"
  | tooManyDigits n => Whole.tooLongToRead n
  | noShapes => "model document must contain a 'shapes' object"
  | notAbsolute id => "shape id " ++ Text.quoted id ++ " is not absolute"
  | unknownKind id shown => id ++ " has unsupported type " ++ shown
  | noTarget member => "member " ++ member ++ " has no target"
  | missing e => e.message
  | undeclared id reference => id ++ " references " ++ reference ++ ", but it is not declared"
  | unknownProtocol name known =>
    "unknown protocol " ++ Text.quoted name ++ " (expected one of: " ++ known ++ ")"
  | noProtocol service => "service " ++ service ++ " has no supported protocol trait"
  | noService id => "service " ++ id ++ " not found in model"
  | notOneService found => "expected exactly one service, found " ++
      (if found.isEmpty then "none" else ", ".intercalate found) ++ "; pick one with --service"
  | unreadable path fault => "can't read model file " ++ path ++ ": " ++ fault.message

namespace Loader

/-- The traits of a node. -/
def traitsOf (node : Json) : Traits := ((node.get? "traits").getD .null).asFields

/-- A text, or how messages show another document. -/
def textOf (j : Json) : String := j.plain

def memberOf (container name : String) (node : Json) : Except ModelError Member :=
  match node.get? "target" with
  | some t => .ok ⟨name, textOf t, container, traitsOf node⟩
  | none => .error (.noTarget (container ++ "$" ++ name))

/-- The part of a node under a key; an absent one counts as an empty map. -/
def part (key : String) (node : Json) : Json := (node.get? key).getD (.map [])

def kindOf (id : String) (node : Json) : Except ModelError ShapeKind :=
  let j := (node.get? "type").getD .null
  match j.asText?.bind ShapeKind.ofName? with
  | some k => .ok k
  | none => .error (.unknownKind id j.display)

def membersOf (id : String) (kind : ShapeKind) (node : Json) : Except ModelError (List Member) :=
  if kind.isCollection then do
    return [← memberOf id "member" (part "member" node)]
  else if kind = .map then do
    let key ← memberOf id "key" (part "key" node)
    let value ← memberOf id "value" (part "value" node)
    return [key, value]
  else (part "members" node).asFields.mapM fun (name, j) => memberOf id name j

/-- The target of a reference that may be absent. -/
def referenceOf (key : String) (node : Json) : Option String :=
  match (part key node).get? "target" with
  | some .null => none
  | t => t.map textOf

/-- The targets of a list of references. -/
def referencesOf (key : String) (node : Json) : Except ModelError (List String) :=
  (part key node).asList.mapM fun j =>
    match j.get? "target" with
    | some t => .ok (textOf t)
    | none => .error (.missing (.key "target"))

def shapeOf (id : String) (node : Json) : Except ModelError Shape := do
  let kind ← kindOf id node
  let members ← membersOf id kind node
  let errors ← referencesOf "errors" node
  let operations ← referencesOf "operations" node
  return ⟨id, kind, traitsOf node, members, referenceOf "input" node, referenceOf "output" node,
    errors, operations⟩

/-- The ids that a shape refers to. -/
def references (s : Shape) : List String :=
  (if s.kind = .enum || s.kind = .intEnum then [] else s.members.map (·.target)) ++
    ([s.input, s.output].filterMap id).filter (· ≠ "") ++ s.errors ++ s.operations

/-- Refuses a model with a reference to a shape that it lacks. -/
def checkReferences (m : Model) : Except ModelError Unit :=
  m.shapes.forM fun s => (references s).forM fun r =>
    if (m.find? r).isSome then .ok () else .error (.undeclared s.id r)

/-- Adds a declared shape. -/
def declare (m : Model) (entry : String × Json) : Except ModelError Model := do
  if !entry.1.toList.contains '#' then throw (.notAbsolute entry.1)
  return m.put (← shapeOf entry.1 entry.2)

def modelOf (j : Json) : Except ModelError Model :=
  match j.get? "shapes" with
  | some (.map nodes) => do
    let m ← nodes.foldlM declare ⟨Prelude.shapes⟩
    checkReferences m
    return m
  | _ => .error .noShapes

end Loader

namespace Model

/-- The model of a document's text. -/
def load (text : String) : Except ModelError Model :=
  match Json.ofText text with
  | .ok j => Loader.modelOf j
  | .error .malformed => .error .notJson
  | .error (.tooManyDigits n) => .error (.tooManyDigits n)

/-- The model of a file. -/
def loadFile (d : Disk) (path : String) : Except ModelError Model :=
  match d.read path with
  | .ok text => load text
  | .error e => .error (.unreadable path e)

end Model

end Wireform
