import Wireform.Source.Definition
import Wireform.Source.Literal

/-
  Wireform source text: the function that says which parts of an operation's messages a log must
  not show.
-/

namespace Wireform.Source

/-- Marks the headers with a prefix. -/
def prefixMarkLines (start : String) : List String := [
  "    if name.startswith(" ++ textLiteral start ++ "):",
  "        return _s.HeaderMarker(value=True, key_suffix=" ++ toString start.length ++ ")"]

/-- The inner function that marks headers by their names and prefixes. -/
def headerMarkLines (function : String) (names prefixes : List String) : List String :=
  ("def " ++ function ++ "(name: str) -> _s.HeaderMarker:") ::
    (if names.isEmpty then [] else [
      "    if name in " ++ textsLiteral names ++ ":",
      "        return _s.HeaderMarker(value=True)"]) ++
    prefixes.flatMap prefixMarkLines ++ ["    return _s.HeaderMarker(value=False)"]

/-- The calls that register the clauses of a coverage. -/
def clauseCalls (c : Coverage) : List String :=
  (if c.hasRequestHeaders then [".request_header(request_header)"] else []) ++
  (if c.hasResponseHeaders then [".response_header(response_header)"] else []) ++
  (if c.hasPath then [".path(lambda index: index in " ++ numbersLiteral c.path ++ ")"] else []) ++
  (if c.queryParams then [".query(lambda key: _s.QueryMarker(key=True, value=True))"]
    else if c.queryKeys.isEmpty then []
    else [".query(lambda key: _s.QueryMarker(key=False, value=key in " ++
      textsLiteral c.queryKeys ++ "))"]) ++
  (if c.statusCode then [".status_code()"] else [])

/-- The function for an operation. -/
def sensitivity (p : Plan) : Definition :=
  let c := p.coverage
  let request := if c.hasRequestHeaders then
    headerMarkLines "request_header" c.requestHeaders c.requestPrefixes else []
  let response := if c.hasResponseHeaders then
    headerMarkLines "response_header" c.responseHeaders c.responsePrefixes else []
  let value := match clauseCalls c with
    | [] => ["return _s.Sensitivity()"]
    | calls => "return (" :: ("_s.Sensitivity()" :: calls).map indent ++ [")"]
  ⟨"sensitivity_" ++ p.name, "() -> _s.Sensitivity:", request ++ response ++ value⟩

end Wireform.Source
