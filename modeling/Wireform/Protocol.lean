import Wireform.Model.Loader
import Wireform.Time.Timestamp

/-
  Wireform protocols: what each wire dialect can express. `restrict` takes away the traits that a
  protocol cannot express and leaves everything else as it is.
-/

namespace Wireform

structure Protocol where
  name : String
  trait : String
  supportsHttp : Bool
  supportsLabels : Bool
  supportsStreaming : Bool
  timestampFormat : TimestampFormat
  checksum : String
  deriving DecidableEq, Repr

namespace Protocol

def supportsAll (p : Protocol) : Bool := p.supportsHttp && p.supportsLabels && p.supportsStreaming

/-- A protocol that can express everything. -/
def rest (name : String) (format : TimestampFormat) : Protocol :=
  ⟨name, "aws.protocols#" ++ name, true, true, true, format, "crc32"⟩

/-- A protocol whose messages are documents. -/
def rpc (name : String) (format : TimestampFormat) : Protocol :=
  ⟨name, "aws.protocols#" ++ name, false, false, true, format, "crc32"⟩

def all : List Protocol := [
  rest "restJson1" .epochSeconds,
  rest "restXml" .dateTime,
  rpc "awsJson1_0" .epochSeconds,
  rpc "awsJson1_1" .epochSeconds,
  rpc "awsQuery" .dateTime,
  rpc "ec2Query" .dateTime,
  ⟨"rpcv2Cbor", "smithy.protocols#rpcv2Cbor", false, false, false, .epochSeconds, "crc32"⟩]

/-- The names of the protocols in order. -/
def known : String := ", ".intercalate ((all.map (·.name)).mergeSort fun a b => !(b < a))

def ofName (name : String) : Except ModelError Protocol :=
  match all.find? (·.name = name) with
  | some p => .ok p
  | none => .error (.unknownProtocol name known)

/-- The protocol that is asked for, or else the first one whose trait a service has. -/
def resolve (service : Shape) (override : Option String) : Except ModelError Protocol :=
  match override.filter (· ≠ "") with
  | some name => ofName name
  | none =>
    match all.find? fun p => service.traits.has p.trait with
    | some p => .ok p
    | none => .error (.noProtocol service.id)

/-! ## Restriction -/

def restrictMember (p : Protocol) (m : Member) : Member :=
  let m := if p.supportsLabels then m else m.without Trait.httpLabel
  if p.supportsHttp then m else m.without Trait.httpPayload

def restrictShape (p : Protocol) (s : Shape) : Shape :=
  let s := { s with members := s.members.map p.restrictMember }
  if s.kind = .operation && !p.supportsHttp then s.without Trait.http
  else if s.kind = .blob && !p.supportsStreaming then s.without Trait.streaming
  else s

/-- The model without the traits that the protocol cannot express. -/
def restrict (p : Protocol) (m : Model) : Model :=
  if p.supportsAll then m else ⟨m.shapes.map p.restrictShape⟩

end Protocol

end Wireform
