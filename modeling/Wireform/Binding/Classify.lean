import Wireform.Binding.Error

/-
  Wireform bindings: which member travels in which part of a message. A member without a binding
  trait, or with one that the direction does not have, travels in the document.
-/

namespace Wireform

/-- Where a member lives: the header name, header prefix, query key or label is its `name`, and a
label has the index of its segment. -/
structure Binding where
  member : Member
  location : Location
  name : String
  index : Option Nat
  greedy : Bool
  deriving Repr

namespace Binding

/-- A binding without a name. -/
def plain (member : Member) (location : Location) : Binding := ⟨member, location, "", none, false⟩

def named (member : Member) (location : Location) (name : String) : Binding :=
  ⟨member, location, name, none, false⟩

/-- The bindings at a location. -/
def located (location : Location) (bs : List Binding) : List Binding :=
  bs.filter (·.location = location)

/-! ## One member -/

/-- The traits of a member that bind it, each with its location. -/
def traitsOf (m : Member) : List (String × Location) :=
  Location.traits.filter fun t => m.traits.has t.1

/-- An id behind its last `#`. -/
def shortName (id : String) : String :=
  String.ofList ((Text.pieces '#' id.toList).getLastD [])

/-- Kinds that can be a payload. -/
def isPayloadKind (k : ShapeKind) : Bool :=
  [.string, .enum, .blob, .struct, .union, .document].contains k

/-- Kinds that can be a status code. -/
def isStatusKind (k : ShapeKind) : Bool := [.integer, .short, .byte, .long].contains k

/-- The binding of a label to its segment of the URI. -/
def ofLabel (m : Member) (kind : ShapeKind) (uri : Option Pattern) :
    Except DeclarationFault Binding :=
  match uri.bind fun p => (p.label? m.name).map (p, ·) with
  | none => .error (.labelNotInUri m.name (uri.map Pattern.text))
  | some (p, s) =>
    if kind.isAggregate || kind.isCollection || kind = .map then .error (.badTarget .label kind)
    else .ok ⟨m, .label, m.name, (p.labelIndexes.find? (·.1 = m.name)).map (·.2),
      s.kind = .greedy⟩

/-- The binding at a location that the direction has. -/
def ofLocation (m : Member) (trait : String) (location : Location) (kind : ShapeKind)
    (uri : Option Pattern) : Except DeclarationFault Binding :=
  let name := (m.traits.text? trait).getD ""
  match location with
  | .prefixHeaders | .queryParams =>
    if kind ≠ .map then .error (.notMap location)
    else .ok (named m location (if location = .prefixHeaders then name else ""))
  | .header | .query =>
    if name = "" then .error (.noName location)
    else if kind.isAggregate || kind = .map then .error (.badTarget location kind)
    else .ok (named m location name)
  | .label => ofLabel m kind uri
  | .payload =>
    if isPayloadKind kind then .ok (plain m .payload) else .error (.badTarget .payload kind)
  | .responseCode => if isStatusKind kind then .ok (plain m .responseCode) else .error .notInteger
  | .document => .ok (plain m .document)

/-- The binding of a member. -/
def ofMember (model : Model) (direction : Direction) (uri : Option Pattern) (m : Member) :
    Except AnalysisError Binding :=
  match traitsOf m with
  | [] => .ok (plain m .document)
  | [(trait, location)] => do
    let target ← model.targetOf m
    if !direction.has location then return plain m .document
    (ofLocation m trait location target.kind uri).mapError (.declared m.id)
  | ts => .error (.declared m.id (.severalTraits (ts.map fun t => shortName t.1)))

/-! ## A whole message -/

/-- Locations that at most one member of a message has. -/
def singleLocations : List Location := [.prefixHeaders, .queryParams, .responseCode]

/-- A label of the URI that no member is bound to. -/
def unbound? (uri : Pattern) (bs : List Binding) : Option String :=
  uri.labels.find? fun n => !((located .label bs).map (·.name)).contains n

/-- What is wrong with the bindings of a message taken together. -/
def conflict? (direction : Direction) (uri : Option Pattern) (bs : List Binding) :
    Option DeclarationFault :=
  match located .payload bs, located .document bs with
  | _ :: _ :: _, _ => some .severalPayloads
  | [p], d :: ds => some (.payloadWithBody p.member.name ((d :: ds).map (·.member.name)))
  | _, _ =>
    match singleLocations.find? fun l => 1 < (located l bs).length with
    | some l => some (.several l)
    | none =>
      if direction = .request then (uri.bind fun p => unbound? p bs).map .unboundLabel else none

/-- The bindings of an input, output or error, one for each member in order. -/
def classify (model : Model) (direction : Direction) (uri : Option Pattern) (s : Shape) :
    Except AnalysisError (List Binding) := do
  let bs ← s.members.mapM (ofMember model direction uri)
  match conflict? direction uri bs with
  | some fault => throw (.declared s.id fault)
  | none => return bs

end Binding

end Wireform
