import Wireform.Binding.Location
import Wireform.Checksum.Algorithm
import Wireform.Uri.Pattern

/-
  Wireform binding errors: what is wrong with the declarations of a shape. They are told for all
  operations of a service together.
-/

namespace Wireform

/-- Why a declaration cannot be used. -/
inductive DeclarationFault where
  | noUri
  | pattern (e : PatternError)
  | severalTraits (names : List String)
  | notMap (location : Location)
  | noName (location : Location)
  | badTarget (location : Location) (kind : ShapeKind)
  | notInteger
  | labelNotInUri (name : String) (uri : Option String)
  | severalPayloads
  | payloadWithBody (payload : String) (body : List String)
  | several (location : Location)
  | unboundLabel (name : String)
  | algorithm (e : UnknownAlgorithm)
  | notInput (role name : String)
  | notString (role : String)
  | noValidationMember
  deriving DecidableEq, Repr

def DeclarationFault.message : DeclarationFault → String
  | noUri => Text.quoted "uri"
  | pattern e => e.message
  | severalTraits names =>
    "member has more than one binding trait (" ++ ", ".intercalate names ++ ")"
  | notMap location => location.name ++ " binding must target a map"
  | noName location => location.name ++ " binding needs a name"
  | badTarget location kind => location.name ++ " binding can't target a " ++ kind.name
  | notInteger => "response code binding must target an integer"
  | labelNotInUri name uri => "label " ++ name ++ " not found in URI " ++ uri.getD "None"
  | severalPayloads => "more than one member is bound to the payload"
  | payloadWithBody payload body => "payload member " ++ payload ++
      " can't coexist with body members: " ++ ", ".intercalate body
  | several location => "more than one member is bound to " ++ location.name
  | unboundLabel name => "URI label " ++ name ++ " has no matching member"
  | algorithm e => e.message
  | notInput role name =>
    role ++ " " ++ Text.quoted name ++ " is not a member of the operation input"
  | notString role => role ++ " must target a string or enum"
  | noValidationMember => "responseAlgorithms needs a requestValidationModeMember"

/-- Why a value has no text at a location. -/
inductive FormatFault where
  | notText (location : Location)
  | notMap (location : Location) (kind : ShapeKind)
  | nestedList (location : Location)
  | listLabel
  | noFormat (location : Location) (kind : ShapeKind)
  deriving DecidableEq, Repr

def FormatFault.message : FormatFault → String
  | notText location => location.name ++ " values are not formatted as text"
  | notMap location kind => location.name ++ " needs a map, got " ++ kind.name
  | nestedList location => "nested lists can't be bound to " ++ location.name
  | listLabel => "a list can't be bound to a label"
  | noFormat location kind => "a " ++ kind.name ++ " can't be bound to " ++ location.name

/-- A fault of a declaration or a format, and the shape or member that it was found at. -/
inductive BindingError where
  | declaration (subject : String) (fault : DeclarationFault)
  | format (member : String) (fault : FormatFault)
  deriving DecidableEq, Repr

def BindingError.message : BindingError → String
  | declaration subject fault => subject ++ ": " ++ fault.message
  | format member fault => member ++ ": " ++ fault.message

/-- Why an analysis of a model stops: an error of a binding, or a value that no analysis can
use. -/
inductive AnalysisError where
  | binding (e : BindingError)
  | missing (e : Missing)
  | timestampFormat (shown : String)
  | algorithm (e : UnknownAlgorithm)
  deriving DecidableEq, Repr

def AnalysisError.message : AnalysisError → String
  | binding e => e.message
  | missing e => e.message
  | timestampFormat shown => shown ++ " is not a valid TimestampFormat"
  | algorithm e => e.message

/-- A fault found at a declaration. -/
def AnalysisError.declared (subject : String) (fault : DeclarationFault) : AnalysisError :=
  .binding (.declaration subject fault)

/-- A fault found at a format. -/
def AnalysisError.formatted (member : String) (fault : FormatFault) : AnalysisError :=
  .binding (.format member fault)

namespace Model

/-- `get` within an analysis. -/
def lookup (m : Model) (id : String) : Except AnalysisError Shape := (m.get id).mapError .missing

/-- `target` within an analysis. -/
def targetOf (m : Model) (member : Member) : Except AnalysisError Shape :=
  (m.target member).mapError .missing

end Model

end Wireform
