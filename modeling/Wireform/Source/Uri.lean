import Wireform.Source.Header

/-
  Wireform source text: the constant that holds the segments of a URI, and the functions that write
  the path and the query of a request.
-/

namespace Wireform.Source

/-- The constant with the segments of an operation's URI. -/
def uriConstant (p : Plan) : String :=
  uriName p ++ " = " ++ Text.tuple (p.http.uri.segments.map fun s =>
    textsLiteral [s.kind.name, s.content])

/-! ## Path -/

/-- The last binding of a label. -/
def labelBinding? (p : Plan) (name : String) : Option Binding :=
  (Binding.located .label p.request).reverse.find? (·.name = name)

/-- The lines that a segment needs, and its part of the path. -/
def pathPart (w : Writer) (p : Plan) (s : Segment) :
    Except GenerateError (List String × String) := do
  if !s.isLabel then return ([], textLiteral s.content)
  match labelBinding? p s.content with
  | none => throw (.plan (.analysis (.missing (.key s.content))))
  | some b =>
    let field := fieldOf b.member
    let format ← w.formatOf b
    let encode := if format.transform = .verbatim then ""
      else ", lambda v: " ++ encodeExpression format.transform "v"
    let greedy := if b.greedy then ", greedy=True" else ""
    return (["label_" ++ field ++ " = _uri.label_text(" ++ attributeOf b.member ++ ", \"" ++
        field ++ "\"" ++ encode ++ ")"],
      "_uri.encode_label(label_" ++ field ++ greedy ++ ")")

/-- The path of the parts between slashes. -/
def pathExpression (parts : List String) (trailingSlash : Bool) : String :=
  if parts.isEmpty then "\"/\""
  else "\"/\" + \"/\".join([" ++ ", ".intercalate parts ++ "])" ++
    if trailingSlash then " + \"/\"" else ""

/-- The function that writes the path. -/
def writePath (w : Writer) (p : Plan) : Except GenerateError Definition := do
  let parts ← p.http.uri.segments.mapM (pathPart w p)
  return {
    name := "ser_path_" ++ p.name
    head := "(value: " ++ classOf p.input ++ ") -> str:"
    body := parts.flatMap (·.1) ++
      ["return " ++ pathExpression (parts.map (·.2)) p.http.uri.trailingSlash] }

/-! ## Query -/

/-- Adds the pairs of a member that is bound to a key. -/
def queryLines (w : Writer) (b : Binding) : Except GenerateError (List String) := do
  let source := attributeOf b.member
  let format ← w.formatOf b
  let add (operand : String) : String := "builder.query_param(" ++ textLiteral b.name ++ ", " ++
    encodeExpression format.transform operand ++ ")"
  return ("if " ++ source ++ " is not None:") ::
    if format.isSingular then ["    " ++ add source]
    else ["    for item in " ++ source ++ ":", "        " ++ add "item"]

/-- Adds the pairs of a map; an entry with a key that has a member of its own is passed over. -/
def queryMapLines (w : Writer) (bound : List String) (b : Binding) :
    Except GenerateError (List String) := do
  let source := attributeOf b.member
  let format ← w.formatOf b
  let add (operand : String) : String :=
    "builder.query_param(key, " ++ encodeExpression format.transform operand ++ ")"
  return [
    "if " ++ source ++ " is not None:",
    "    for key, item in " ++ source ++ ".items():"] ++
    (if bound.isEmpty then []
      else ["        if key in " ++ textsLiteral bound ++ ":", "            continue"]) ++
    if format.collection then ["        for element in item:", "            " ++ add "element"]
    else ["        " ++ add "item"]

/-- The function that writes the query. -/
def writeQuery (w : Writer) (p : Plan) : Except GenerateError Definition := do
  let literals := p.http.uri.query.map fun (k, v) =>
    "builder.query_param(" ++ textLiteral k ++ ", " ++ textLiteral v ++ ")"
  let queries := Binding.located .query p.request
  let lines ← queries.mapM (queryLines w)
  let maps ← (Binding.located .queryParams p.request).mapM
    (queryMapLines w (queries.map (·.name)))
  return {
    name := "ser_query_" ++ p.name
    head := "(value: " ++ classOf p.input ++
      ", builder: _m.HttpRequestBuilder) -> _m.HttpRequestBuilder:"
    body := literals ++ lines.flatten ++ maps.flatten ++ ["return builder"] }

end Wireform.Source
