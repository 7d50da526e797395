import Wireform.Binding.Classify
import Wireform.Sensitivity.Walk

/-
  Wireform sensitivity: which parts of an exchange carry sensitive members and must not be logged.
-/

namespace Wireform

/-- What is sensitive in the path, query and headers of a request, and in the headers and status of
a response. -/
structure Coverage where
  path : List Nat
  queryKeys : List String
  queryParams : Bool
  requestHeaders : List String
  requestPrefixes : List String
  responseHeaders : List String
  responsePrefixes : List String
  statusCode : Bool
  deriving DecidableEq, Repr

namespace Coverage

def hasPath (c : Coverage) : Bool := !c.path.isEmpty

def hasQuery (c : Coverage) : Bool := !c.queryKeys.isEmpty || c.queryParams

def hasRequestHeaders (c : Coverage) : Bool :=
  !c.requestHeaders.isEmpty || !c.requestPrefixes.isEmpty

def hasResponseHeaders (c : Coverage) : Bool :=
  !c.responseHeaders.isEmpty || !c.responsePrefixes.isEmpty

def isEmpty (c : Coverage) : Bool :=
  !(c.hasPath || c.hasQuery || c.hasRequestHeaders || c.hasResponseHeaders || c.statusCode)

/-- Texts in order, each once. -/
def sorted (ts : List String) : List String := ts.eraseDups.mergeSort fun a b => !(b < a)

/-- The bindings of sensitive members outside the body. -/
def bindingsOf (model : Model) (root : Shape) (bs : List Binding) :
    Except AnalysisError (List Binding) := do
  let ids ← Sensitivity.memberIds model root
  return bs.filter fun b =>
    ids.contains b.member.id && b.location ≠ .document && b.location ≠ .payload

/-- The names at a location in lower case. -/
def namesAt (l : Location) (bs : List Binding) : List String :=
  sorted ((Binding.located l bs).map fun b => Text.lowered b.name)

/-- The coverage of an operation with the bindings of its input and output. -/
def ofBindings (model : Model) (input : Shape) (request : List Binding) (output : Shape)
    (response : List Binding) : Except AnalysisError Coverage := do
  let request ← bindingsOf model input request
  let response ← bindingsOf model output response
  return {
    path := (request.filterMap (·.index)).mergeSort
    queryKeys := sorted ((Binding.located .query request).map (·.name))
    queryParams := request.any (·.location = .queryParams)
    requestHeaders := namesAt .header request
    requestPrefixes := namesAt .prefixHeaders request
    responseHeaders := namesAt .header response
    responsePrefixes := namesAt .prefixHeaders response
    statusCode := response.any (·.location = .responseCode) }

end Coverage

end Wireform
