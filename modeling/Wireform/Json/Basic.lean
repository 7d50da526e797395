import Wireform.Entries
import Wireform.Number.Double

/-
  Wireform JSON documents. A map keeps its keys in the order in which they first came.
-/

namespace Wireform

inductive Json where
  | null
  | flag (b : Bool)
  | whole (n : Int)
  | real (x : Double)
  | text (s : String)
  | list (items : List Json)
  | map (fields : List (String × Json))
  deriving BEq, Inhabited, Repr

namespace Json

/-- The value of a key of a map. -/
def get? (key : String) : Json → Option Json
  | .map fields => Entries.get? key fields
  | _ => none

/-- Whether a document counts as true: empty, zero and null ones do not. -/
def isTruthy : Json → Bool
  | .null => false
  | .flag b => b
  | .whole n => n ≠ 0
  | .real x => match x with
    | .finite _ m _ => m ≠ 0
    | _ => true
  | .text s => s ≠ ""
  | .list items => !items.isEmpty
  | .map fields => !fields.isEmpty

def isNull : Json → Bool
  | .null => true
  | _ => false

def asText? : Json → Option String
  | .text s => some s
  | _ => none

def asList : Json → List Json
  | .list items => items
  | _ => []

def asFields : Json → List (String × Json)
  | .map fields => fields
  | _ => []

end Json

end Wireform
