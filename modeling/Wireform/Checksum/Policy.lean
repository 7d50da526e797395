import Wireform.Binding.Error
import Wireform.Protocol

/-
  Wireform checksum policies: what an operation says about checksums of its messages.
-/

namespace Wireform

structure ChecksumPolicy where
  default : Algorithm
  requestMember : Option Member
  required : Bool
  validationMember : Option Member
  responseAlgorithms : List Algorithm
  deriving Repr

namespace ChecksumPolicy

def calculatesRequest (p : ChecksumPolicy) : Bool := p.requestMember.isSome || p.required

def validatesResponse (p : ChecksumPolicy) : Bool := !p.responseAlgorithms.isEmpty

/-- The value that is sent for the algorithm member where the caller leaves it unset: the enum value
that names the default algorithm, or else its name in capitals. -/
def defaultValue (model : Model) (p : ChecksumPolicy) : Except AnalysisError String := do
  let capitals := Text.uppered p.default.name
  match p.requestMember with
  | none => return capitals
  | some m =>
    let values ← ((← model.targetOf m).enumValues).mapError .missing
    return ((values.map fun v => v.2.plain).find? fun s =>
      Text.lowered s = p.default.name).getD capitals

/-- The member of the input that plays a role in the policy. -/
def inputMember (model : Model) (op : Shape) (trait : Json) (role : String) :
    Except AnalysisError (Option Member) := do
  match (trait.get? role).bind Json.asText? with
  | none => return none
  | some name =>
    match (← model.lookup (Model.orUnit op.input)).member? name with
    | none => throw (.declared op.id (.notInput role name))
    | some m =>
      if !(← model.targetOf m).isString then throw (.declared m.id (.notString role))
      return some m

/-- The algorithms that a response may use. -/
def responsesOf (op : Shape) (trait : Json) : Except AnalysisError (List Algorithm) :=
  (((trait.get? "responseAlgorithms").getD .null).asList).mapM fun j =>
    (Algorithm.ofName j.plain).mapError fun e => .declared op.id (.algorithm e)

/-- The policy of an operation; one without the trait has none. -/
def ofShape (model : Model) (p : Protocol) (op : Shape) :
    Except AnalysisError (Option ChecksumPolicy) := do
  match op.traits.get? Trait.httpChecksum with
  | none => return none
  | some trait =>
    let responses ← responsesOf op trait
    let validation ← inputMember model op trait "requestValidationModeMember"
    if !responses.isEmpty && validation.isNone then throw (.declared op.id .noValidationMember)
    let default ← (Algorithm.ofName p.checksum).mapError .algorithm
    let request ← inputMember model op trait "requestAlgorithmMember"
    return some ⟨default, request, ((trait.get? "requestChecksumRequired").getD .null).isTruthy,
      validation, responses⟩

end ChecksumPolicy

end Wireform
