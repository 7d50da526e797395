import Wireform.Binding.Classify

/-
  Wireform HTTP rules: the method, URI and status code of an operation. An index remembers the rules
  that it has read; it never remembers a failure.
-/

namespace Wireform

/-- How an operation is called. -/
structure HttpRule where
  method : String
  uri : Pattern
  code : Int
  deriving Repr

namespace HttpRule

/-- The rule of an operation; an operation without the trait has none. -/
def ofShape (op : Shape) : Except AnalysisError (Option HttpRule) :=
  match op.traits.get? Trait.http with
  | none => .ok none
  | some trait =>
    match (trait.get? "uri").bind Json.asText? with
    | none => .error (.declared op.id .noUri)
    | some text =>
      match Pattern.parse text with
      | .error e => .error (.declared op.id (.pattern e))
      | .ok uri =>
        let code := match trait.get? "code" with
          | some (.whole n) => n
          | _ => 200
        .ok (some ⟨((trait.get? "method").bind Json.asText?).getD "GET", uri, code⟩)

end HttpRule

/-- The rules that have been read, by the ids of their operations. -/
structure HttpIndex where
  rules : List (String × Option HttpRule)

namespace HttpIndex

def empty : HttpIndex := ⟨[]⟩

/-- The rule of an operation, which is read only once. -/
def rule (ix : HttpIndex) (op : Shape) : Except AnalysisError (Option HttpRule) × HttpIndex :=
  match Entries.get? op.id ix.rules with
  | some r => (.ok r, ix)
  | none =>
    match HttpRule.ofShape op with
    | .ok r => (.ok r, ⟨(op.id, r) :: ix.rules⟩)
    | .error e => (.error e, ix)

end HttpIndex

namespace Binding

/-- The bindings of an operation's input. -/
def ofInput (model : Model) (op : Shape) (http : HttpRule) :
    Except AnalysisError (List Binding) := do
  classify model .request (some http.uri) (← model.lookup (Model.orUnit op.input))

/-- The bindings of an operation's output. -/
def ofOutput (model : Model) (op : Shape) : Except AnalysisError (List Binding) := do
  classify model .response none (← model.lookup (Model.orUnit op.output))

/-- The bindings of an error. -/
def ofError (model : Model) (error : Shape) : Except AnalysisError (List Binding) :=
  classify model .response none error

end Binding

end Wireform
