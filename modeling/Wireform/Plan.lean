import Wireform.Binding.Format
import Wireform.Binding.Http
import Wireform.Checksum.Policy
import Wireform.Name
import Wireform.Sensitivity.Coverage

/-
  Wireform plans: everything that is derived for one operation. The errors of all operations are
  gathered before anything is generated.
-/

namespace Wireform

structure Plan where
  operation : Shape
  http : HttpRule
  input : Shape
  output : Shape
  request : List Binding
  response : List Binding
  errors : List (Shape × List Binding)
  checksum : Option ChecksumPolicy
  coverage : Coverage
  deriving Repr

/-- Why a model's operations have no plans. -/
inductive PlanError where
  | bindings (es : List BindingError)
  | analysis (e : AnalysisError)
  deriving DecidableEq, Repr

def PlanError.message : PlanError → String
  | bindings es => s!"model has {es.length} binding error(s):\n" ++
      "\n".intercalate (es.map fun e => "  - " ++ e.message)
  | analysis e => e.message

namespace Plan

/-- The name of an operation in generated code. -/
def name (p : Plan) : String := Name.snake p.operation.name

/-! ## One operation -/

/-- Refuses bindings whose values have no text. -/
def checkFormats (model : Model) (p : Protocol) (bs : List Binding) : Except AnalysisError Unit :=
  (bs.filter (·.location.isText)).forM fun b => (Format.ofBinding model p b).map fun _ => ()

/-- The plan of an operation with an HTTP rule. -/
def ofRule (model : Model) (p : Protocol) (op : Shape) (http : HttpRule) :
    Except AnalysisError Plan := do
  let request ← Binding.ofInput model op http
  let response ← Binding.ofOutput model op
  let input ← model.lookup (Model.orUnit op.input)
  let output ← model.lookup (Model.orUnit op.output)
  let shapes ← op.errors.mapM model.lookup
  let errors ← shapes.mapM fun e => (Binding.ofError model e).map (e, ·)
  (request :: response :: errors.map (·.2)).forM (checkFormats model p)
  let checksum ← ChecksumPolicy.ofShape model p op
  let coverage ← Coverage.ofBindings model input request output response
  return { operation := op, http, input, output, request, response, errors, checksum, coverage }

/-- The plan of an operation; one without an HTTP rule has none. -/
def ofShape (model : Model) (p : Protocol) (ix : HttpIndex) (op : Shape) :
    Except AnalysisError (Option Plan) × HttpIndex :=
  let (http, ix) := ix.rule op
  (match http with
    | .error e => .error e
    | .ok none => .ok none
    | .ok (some http) => (ofRule model p op http).map some, ix)

/-! ## All operations -/

/-- The plans and binding errors of operations in order; another error ends the work. -/
def gather (model : Model) (p : Protocol) : HttpIndex → List Shape →
    Except AnalysisError (List Plan × List BindingError)
  | _, [] => .ok ([], [])
  | ix, op :: ops =>
    let (plan, ix) := ofShape model p ix op
    match plan with
    | .ok plan => (gather model p ix ops).map fun (ps, es) => (plan.toList ++ ps, es)
    | .error (.binding e) => (gather model p ix ops).map fun (ps, es) => (ps, e :: es)
    | .error e => .error e

/-- The plans of the operations of a service, or of the model. -/
def ofModel (model : Model) (p : Protocol) (service : Option Shape) :
    Except PlanError (List Plan) := do
  let ops ← (model.operations service).mapError fun e => .analysis (.missing e)
  let (plans, errors) ← (gather model p .empty ops).mapError .analysis
  if !errors.isEmpty then throw (.bindings errors)
  return plans

end Plan

/-- The service that is asked for, or else the only one. -/
def Model.selectService (m : Model) (id : Option String) : Except ModelError Shape :=
  match id.filter (· ≠ "") with
  | some id =>
    match m.find? id with
    | some s => .ok s
    | none => .error (.noService id)
  | none =>
    match m.services with
    | [s] => .ok s
    | ss => .error (.notOneService (ss.map (·.id)))

end Wireform
