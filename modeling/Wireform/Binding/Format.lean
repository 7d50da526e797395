import Wireform.Binding.Classify
import Wireform.Protocol
import Wireform.Scalar

/-
  Wireform formats: how a bound value is written as text and read again. A list has a text for each
  element, which a header joins with commas; text elements are quoted there.
-/

namespace Wireform

/-- How one element becomes text. -/
inductive Transform where
  | verbatim
  | member
  | base64
  | scalar (kind : ScalarKind)
  | timestamp (format : TimestampFormat)
  deriving DecidableEq, Repr

namespace Transform

def name : Transform → String
  | verbatim => "stringify"
  | member => "enum"
  | base64 => "base64"
  | scalar _ => "primitive"
  | timestamp _ => "timestamp"

def scalarKind? : Transform → Option ScalarKind
  | scalar k => some k
  | _ => none

def timestampFormat? : Transform → Option TimestampFormat
  | timestamp f => some f
  | _ => none

end Transform

/-- The text form of a bound value. Elements of a `collection` come one by one; `media` marks texts
of a media type, which travel in base64. -/
structure Format where
  transform : Transform
  element : Shape
  collection : Bool
  commaJoin : Bool
  quote : Bool
  media : Bool
  deriving Repr

namespace Format

/-- At most one element may be read. -/
def isSingular (f : Format) : Bool := !f.collection

/-- The scalar that a kind is written as. -/
def scalarOf? : ShapeKind → Option ScalarKind
  | .boolean => some .flag
  | .byte | .short | .integer | .long | .bigInteger | .intEnum => some .whole
  | .float | .double => some .real
  | .bigDecimal => some .decimal
  | _ => none

/-! ## Timestamps -/

/-- The format at a location where no trait gives one. -/
def defaultAt (p : Protocol) (l : Location) : TimestampFormat :=
  if l.isHeader then .httpDate
  else if l.isRequestOnly then .dateTime
  else p.timestampFormat

/-- The format that traits ask for. -/
def formatTrait? (t : Traits) : Option Json :=
  (t.get? Trait.timestampFormat).filter Json.isTruthy

/-- The format of that name. -/
def formatOf (j : Json) : Except AnalysisError TimestampFormat :=
  match j.asText?.bind TimestampFormat.ofName? with
  | some f => .ok f
  | none => .error (.timestampFormat j.display)

/-- The traits that may give a member's timestamp format, the strongest first. -/
def formatSources (model : Model) (m : Member) : Except AnalysisError (List Traits) := do
  let target ← model.targetOf m
  if target.kind.isCollection then
    let element ← model.targetOf target.element
    return [m.traits, target.traits, target.element.traits, element.traits]
  return [m.traits, target.traits]

/-- The timestamp format of a member at a location. -/
def timestampAt (model : Model) (p : Protocol) (l : Location) (m : Member) :
    Except AnalysisError TimestampFormat := do
  match (← formatSources model m).findSome? formatTrait? with
  | some j => formatOf j
  | none => return defaultAt p l

/-! ## Elements -/

/-- The member whose value stands at the location: a map gives way to its values. -/
def valueMember (model : Model) (l : Location) (m : Member) : Except AnalysisError Member := do
  if l.isMap then
    let target ← model.targetOf m
    if target.kind ≠ .map then throw (.formatted m.id (.notMap l target.kind))
    return target.element
  return m

/-- The member and shape of one element, and whether there may be several. -/
def elementOf (model : Model) (l : Location) (m : Member) :
    Except AnalysisError (Member × Shape × Bool) := do
  let v ← valueMember model l m
  let target ← model.targetOf v
  if !target.kind.isCollection then return (v, target, false)
  let element ← model.targetOf target.element
  if element.kind.isCollection then throw (.formatted v.id (.nestedList l))
  return (target.element, element, true)

/-! ## Rules -/

/-- The transform of an element, and whether it is text of a media type. -/
def transformOf (model : Model) (p : Protocol) (l : Location) (m elementMember : Member)
    (element : Shape) : Except AnalysisError (Transform × Bool) := do
  if element.isEnum && element.kind ≠ .intEnum then return (.member, false)
  if element.kind = .string then
    let media := element.traits.has Trait.mediaType || elementMember.traits.has Trait.mediaType
    return if media && l.isHeader then (.base64, true) else (.verbatim, false)
  if let some k := scalarOf? element.kind then return (.scalar k, false)
  if element.kind = .timestamp then return (.timestamp (← timestampAt model p l m), false)
  if element.kind = .blob then return (.base64, false)
  throw (.formatted m.id (.noFormat l element.kind))

/-- The format of a member at a location. -/
def rule (model : Model) (p : Protocol) (l : Location) (m : Member) :
    Except AnalysisError Format := do
  if !l.isText then throw (.formatted m.id (.notText l))
  let (elementMember, element, collection) ← elementOf model l m
  if collection && l = .label then throw (.formatted m.id .listLabel)
  let (transform, media) ← transformOf model p l m elementMember element
  return { transform, element, collection, media
           commaJoin := collection && l.isHeader
           quote := (transform = .member || transform = .verbatim) && l.isHeader }

/-- The format of a binding. -/
def ofBinding (model : Model) (p : Protocol) (b : Binding) : Except AnalysisError Format :=
  rule model p b.location b.member

end Format

end Wireform
