import Wireform.Source.Header

/-
  Wireform source text: functions that write the payload of a message and read it.
-/

namespace Wireform.Source

/-- The signature of a function from a body to a payload. -/
def payloadHead (hint : String) : String :=
  "(body: _m.Body, codec: _p.Codec) -> " ++ hint ++ ":"

/-- Writes a payload that is there. -/
def payloadBody (target : Shape) : String :=
  if target.isStreamingBlob then "return payload.into_body()"
  else if target.isEventStream then
    "return _es.as_sender(payload).into_body(codec.event_marshaller(" ++ classOf target ++ "))"
  else if target.kind = .blob then "return _m.Body(payload)"
  else if target.isEnum then "return _m.Body(_prim.enum_text(payload).encode(\"utf-8\"))"
  else if target.kind = .string then "return _m.Body(payload.encode(\"utf-8\"))"
  else "return _m.Body(codec.encode(payload))"

/-- The function that writes a payload. -/
def writePayload (w : Writer) (x : Exchange) (b : Binding) : Except GenerateError Definition := do
  let target ← GenerateError.lift (w.model.targetOf b.member)
  let hint ← TypeHint.ofShape w.model none target
  return {
    name := x.functionName "ser_payload" (some b.member)
    head := "(payload: Optional[" ++ hint.text ++ "], codec: _p.Codec) -> _m.Body:"
    body := ["if payload is None:", "    return _m.Body(b\"\")", payloadBody target] }

/-- Reads the octets of a payload that is there. -/
def payloadValue (strict : Bool) (target : Shape) : String :=
  if target.kind = .blob then "return data"
  else if target.isEnum then
    "return _p.decode_enum(data, " ++ classOf target ++ ", strict=" ++ flagLiteral strict ++ ")"
  else if target.kind = .string then "return _p.decode_utf8(data)"
  else if target.kind = .document then "return codec.decode(data, object)"
  else "return codec.decode(data, " ++ classOf target ++ ")"

/-- The function that reads a payload. Without octets there is none, unless it is a stream. -/
def readPayload (w : Writer) (x : Exchange) (b : Binding) : Except GenerateError Definition := do
  let target ← GenerateError.lift (w.model.targetOf b.member)
  let name := x.functionName "deser_payload" (some b.member)
  if target.isStreamingBlob then
    return ⟨name, payloadHead "_m.ByteStream", ["return _m.ByteStream(body.take())"]⟩
  if target.isEventStream then
    return ⟨name, payloadHead "_es.EventStreamReceiver",
      ["return _es.EventStreamReceiver(codec.event_unmarshaller(" ++ classOf target ++
        "), body.take())"]⟩
  let hint ← TypeHint.ofShape w.model none target
  return {
    name
    head := payloadHead ("Optional[" ++ hint.text ++ "]")
    body := ["data = body.read()", "if not data:", "    return None",
      payloadValue x.strict target] }

/-- The media type of a payload. -/
def mediaExpression (target : Shape) : String :=
  let orText (s : String) : String :=
    ((Entries.get? Trait.mediaType target.traits).getD (.text s)).compact
  if target.kind = .blob then orText "application/octet-stream"
  else if target.isString then orText "text/plain"
  else if target.isEventStream then textLiteral "application/vnd.amazon.eventstream"
  else "codec.media_type"

end Wireform.Source
