import Wireform.Binding.Error

/-
  Wireform sensitivity: walks through the graph from shapes to their members and from members to
  their targets. A sensitive node makes everything that can be reached from it sensitive, so the
  first walk stops there and the second goes on from it.
-/

namespace Wireform

/-- A node of the graph. -/
inductive Node where
  | shape (s : Shape)
  | member (m : Member)
  deriving Repr

namespace Node

def id : Node → String
  | shape s => s.id
  | member m => m.id

def isMember : Node → Bool
  | shape _ => false
  | member _ => true

/-- The nodes that a node leads to; operations and services lead nowhere. -/
def next (model : Model) : Node → Except AnalysisError (List Node)
  | member m => (model.targetOf m).map fun s => [shape s]
  | shape s => .ok (if s.kind = .operation || s.kind = .service then [] else s.members.map member)

def isSensitive (model : Model) : Node → Except AnalysisError Bool
  | member m => (model.isSensitive m).mapError .missing
  | shape s => .ok (s.traits.has Trait.sensitive)

end Node

/-! ## Walks -/

/-- Depth first, the last of the nodes that a node leads to before the others: every id is visited
once, and `visit` gives a result for a node and where to go from it. The fuel bounds the nodes that
are ever waiting. -/
def walk {α : Type} (visit : Node → Except AnalysisError (α × List Node)) :
    Nat → List String → List Node → Except AnalysisError (List (Node × α))
  | _, _, [] => .ok []
  | 0, _, _ => .ok []
  | fuel + 1, seen, n :: stack =>
    if seen.contains n.id then walk visit fuel seen stack
    else do
      let (a, next) ← visit n
      let rest ← walk visit fuel (n.id :: seen) (next.reverse ++ stack)
      return (n, a) :: rest

/-- More than the nodes that ever wait on a walk: a start, and what each shape and each member leads
to, where every id is left only once. -/
def Model.walkFuel (m : Model) (start : Node) : Nat :=
  let size (s : Shape) : Nat := 2 * s.members.length + 1
  1 + (m.shapes.map size).foldr (· + ·) 0 + match start with
    | .shape s => size s
    | .member _ => 2

namespace Sensitivity

/-- Stops at a sensitive node and tells it. -/
def visitTop (model : Model) (n : Node) : Except AnalysisError (Bool × List Node) := do
  if ← n.isSensitive model then return (true, [])
  return (false, ← n.next model)

/-- The topmost sensitive nodes that can be reached from a shape. -/
def topmost (model : Model) (root : Shape) : Except AnalysisError (List Node) := do
  let visited ← walk (visitTop model) (model.walkFuel (.shape root)) [] [.shape root]
  return (visited.filter (·.2)).map (·.1)

/-- Goes on from every node. -/
def visitAll (model : Model) (n : Node) : Except AnalysisError (Unit × List Node) :=
  (n.next model).map ((), ·)

/-- The ids of all members that can be reached from a node, its own included. -/
def membersFrom (model : Model) (start : Node) : Except AnalysisError (List String) := do
  let visited ← walk (visitAll model) (model.walkFuel start) [] [start]
  return (visited.filter (·.1.isMember)).map (·.1.id)

/-- The ids of all sensitive members that can be reached from a shape. -/
def memberIds (model : Model) (root : Shape) : Except AnalysisError (List String) := do
  let tops ← topmost model root
  return (← tops.mapM (membersFrom model)).flatten

end Sensitivity

end Wireform
