import Wireform.Source.Payload
import Wireform.Source.Uri

/-
  Wireform source text: functions that write and read whole requests, responses and errors.
-/

namespace Wireform.Source

/-! ## Bodies -/

/-- Puts the body of a message in place. -/
def bodyLines (w : Writer) (x : Exchange) : Except GenerateError (List String) := do
  match x.bindings.find? (·.location = .payload) with
  | some b =>
    let target ← GenerateError.lift (w.model.targetOf b.member)
    return [
      "builder.body(" ++ x.functionName "ser_payload" (some b.member) ++ "(" ++
        attributeOf b.member ++ ", codec))",
      "_m.default_content_type(builder, " ++ mediaExpression target ++ ")"]
  | none =>
    match (Binding.located .document x.bindings).map fun b => fieldOf b.member with
    | [] => return []
    | fields => return [
        "builder.body(_m.Body(codec.encode(value, members=" ++ textsLiteral fields ++ ")))",
        "_m.default_content_type(builder, codec.media_type)"]

/-! ## Results -/

/-- The value of a field that is read from its own part of a message. -/
def assignment (w : Writer) (x : Exchange) (message : String) (b : Binding) :
    Except GenerateError (Option String) := do
  let call (role source : String) : String :=
    x.functionName role (some b.member) ++ "(" ++ source ++ ")"
  let value ← match b.location with
    | .header => pure (some (call "deser_header" (message ++ ".headers")))
    | .prefixHeaders => pure (some (call "deser_prefix_header" (message ++ ".headers")))
    | .query => do
      let f ← w.formatOf b
      pure (some ("_uri.read_query(_uri.query_values(" ++ message ++ ".query, " ++
        textLiteral b.name ++ "), " ++ converterExpression f x.strict ++ ", singular=" ++
        flagLiteral f.isSingular ++ ")"))
    | .queryParams => do
      let f ← w.formatOf b
      pure (some ("_uri.read_query_params(" ++ message ++ ".query, " ++
        converterExpression f x.strict ++ ", multi=" ++ flagLiteral f.collection ++ ")"))
    | .label => do
      let f ← w.formatOf b
      pure (some ("_uri.read_label(labels, " ++ textLiteral b.name ++ ", " ++
        converterExpression f x.strict ++ ")"))
    | .payload => pure (some (call "deser_payload" (message ++ ".body, codec")))
    | .responseCode => pure (some (message ++ ".status"))
    | .document => pure none
  return value.map fun v => fieldOf b.member ++ "=" ++ v

/-- Reads the fields of a message into a value. -/
def resultLines (w : Writer) (x : Exchange) (message : String) :
    Except GenerateError (List String) := do
  let class_ := classOf x.container
  let first := if x.bindings.any (·.location = .document) then
      "result = _p.decode_document(codec, " ++ message ++ ".body, " ++ class_ ++ ")"
    else "result = " ++ class_ ++ "()"
  match (← x.bindings.mapM (assignment w x message)).filterMap id with
  | [] => return [first, "return result"]
  | as => return [first, "return dataclasses.replace(", "    result,"] ++
      as.map (fun a => "    " ++ a ++ ",") ++ [")"]

/-! ## Checksums of requests -/

/-- Gives the algorithm member its default, if a checksum is going to be calculated. -/
def checksumDefaultLines (w : Writer) (p : Plan) : Except GenerateError (List String) := do
  match p.checksum.bind fun c => c.requestMember.map (c, ·) with
  | none => return []
  | some (policy, m) =>
    let target ← GenerateError.lift (w.model.targetOf m)
    let literal := textLiteral (← GenerateError.lift (policy.defaultValue w.model))
    let default := if target.isEnum then classOf target ++ "(" ++ literal ++ ")" else literal
    return [
      "explicit = " ++ attributeOf m ++ " is not None",
      "if not explicit and _ck.request_checksum_enabled(checksum_config, required=" ++
        flagLiteral policy.required ++ ", explicit=False):",
      "    value = dataclasses.replace(value, " ++ fieldOf m ++ "=" ++ default ++ ")"]

/-- Attaches a checksum to a request that is otherwise complete. -/
def checksumApplyLines (p : Plan) : List String :=
  match p.checksum with
  | none => []
  | some policy =>
    match policy.requestMember with
    | none =>
      if policy.required then
        ["_ck.apply_request_checksum(builder, " ++ textLiteral policy.default.name ++
          ", required=True, explicit=False, config=checksum_config)"]
      else []
    | some m => [
      "if " ++ attributeOf m ++ " is not None:",
      "    try:",
      "        _ck.apply_request_checksum(",
      "            builder,",
      "            _prim.enum_text(" ++ attributeOf m ++ "),",
      "            required=" ++ flagLiteral policy.required ++ ",",
      "            explicit=explicit,",
      "            config=checksum_config,",
      "        )",
      "    except ValueError as err:",
      "        raise _m.BuildError.invalid_field(\"" ++ fieldOf m ++ "\", str(err)) from err"]

/-! ## Requests -/

/-- The function that writes a request. -/
def writeRequest (w : Writer) (x : Exchange) : Except GenerateError Definition := do
  let p := x.plan
  let defaults ← checksumDefaultLines w p
  let body ← bodyLines w x
  return {
    name := "ser_request_" ++ p.name
    head := "(\n    value: " ++ classOf p.input ++ ",\n    codec: _p.Codec,\n" ++
      "    checksum_config: Optional[_ck.ChecksumConfig] = None,\n) -> _m.HttpRequest:"
    body := defaults ++ [
      "builder = _m.HttpRequestBuilder(" ++ textLiteral p.http.method ++ ", ser_path_" ++ p.name ++
        "(value))",
      "ser_query_" ++ p.name ++ "(value, builder)",
      x.functionName "add_headers" none ++ "(value, builder)"] ++ body ++ checksumApplyLines p ++
      ["return builder.build()"] }

/-- The function that reads a request. -/
def readRequest (w : Writer) (x : Exchange) : Except GenerateError Definition := do
  let p := x.plan
  let method := Text.uppered p.http.method
  let matching := "_uri.match_path(" ++ uriName p ++ ", request.path)"
  let result ← resultLines w x "request"
  return {
    name := "deser_request_" ++ p.name
    head := "(request: _m.HttpRequest, codec: _p.Codec) -> " ++ classOf p.input ++ ":"
    body := [
      "if request.method.upper() != " ++ textLiteral method ++ ":",
      "    raise _h.ParseError(f\"expected method " ++ method ++
        " but got \x7brequest.method\x7d\")",
      if x.bindings.any (·.location = .label) then "labels = " ++ matching else matching] ++
      result }

/-! ## Responses -/

/-- Starts a response with its status, which a member may give. -/
def statusLines (x : Exchange) (status : Int) : List String :=
  ("builder = _m.HttpResponseBuilder(" ++ String.ofList (Whole.digits status) ++ ")") ::
    (Binding.located .responseCode x.bindings).flatMap fun b => [
      "if " ++ attributeOf b.member ++ " is not None:",
      "    builder.status = " ++ attributeOf b.member]

/-- The body of a function that writes a response or an error. -/
def responseLines (w : Writer) (x : Exchange) (status : Int) :
    Except GenerateError (List String) := do
  let body ← bodyLines w x
  return statusLines x status ++ [x.functionName "add_headers" none ++ "(value, builder)"] ++
    body ++ ["return builder.build()"]

/-- The signature of a function that writes a response or an error. -/
def responseHead (x : Exchange) : String :=
  "(value: " ++ classOf x.container ++ ", codec: _p.Codec) -> _m.HttpResponse:"

/-- The function that writes a response. -/
def writeResponse (w : Writer) (x : Exchange) : Except GenerateError Definition := do
  return ⟨"ser_response_" ++ x.plan.name, responseHead x,
    ← responseLines w x x.plan.http.code⟩

/-- Puts a body in place that is checked as it is read. -/
def checksumValidateLines (p : Plan) : List String :=
  match p.checksum with
  | none => []
  | some policy =>
    match policy.validationMember with
    | some m =>
      if policy.validatesResponse then [
        "_ck.validate_response_checksum(",
        "    response,",
        "    " ++ textsLiteral (policy.responseAlgorithms.map (·.name)) ++ ",",
        "    validation_enabled=request_input is not None and request_input." ++ fieldOf m ++
          " is not None,",
        "    config=checksum_config,",
        ")"]
      else []
    | none => []

/-- The function that reads a response. -/
def readResponse (w : Writer) (x : Exchange) : Except GenerateError Definition := do
  let p := x.plan
  let result ← resultLines w x "response"
  return {
    name := "deser_response_" ++ p.name
    head := "(\n    response: _m.HttpResponse,\n    codec: _p.Codec,\n" ++
      "    checksum_config: Optional[_ck.ChecksumConfig] = None,\n" ++
      "    request_input: Optional[" ++ classOf p.input ++ "] = None,\n) -> " ++ classOf p.output ++
      ":"
    body := checksumValidateLines p ++ result }

/-! ## Errors -/

/-- The status of an error: the one it names, or else by the side that is to blame. -/
def errorStatus (error : Shape) : Except GenerateError Int :=
  match (error.traits.get? Trait.httpError).filter Json.isTruthy with
  | some j => j.toWhole.mapError .number
  | none => .ok (if error.traits.text? Trait.error = some "client" then 400 else 500)

/-- The function that writes an error. -/
def writeError (w : Writer) (x : Exchange) : Except GenerateError Definition := do
  let status ← errorStatus x.container
  return ⟨x.functionName "ser_error" none, responseHead x, ← responseLines w x status⟩

/-- The function that reads an error. -/
def readError (w : Writer) (x : Exchange) : Except GenerateError Definition := do
  return {
    name := x.functionName "deser_error" none
    head := "(response: _m.HttpResponse, codec: _p.Codec) -> " ++ classOf x.container ++ ":"
    body := ← resultLines w x "response" }

end Wireform.Source
