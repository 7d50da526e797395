import Wireform.Checksum.Chunked
import Wireform.Message
import Wireform.ReadError

/-
  Wireform checksums in transit: a request gets a checksum header, or a trailer if its body is a
  stream, and the body of a response is checked as it is read.
-/

namespace Wireform

/-- When a checksum is dealt with: wherever it is supported, or only where it is required. -/
inductive ChecksumTiming where
  | whenSupported
  | whenRequired
  deriving DecidableEq, Repr

namespace ChecksumTiming

def name : ChecksumTiming → String
  | whenSupported => "when_supported"
  | whenRequired => "when_required"

def ofName? (s : String) : Option ChecksumTiming :=
  [whenSupported, whenRequired].find? (·.name = s)

end ChecksumTiming

/-- What the caller asks for. -/
structure ChecksumConfig where
  request : ChecksumTiming
  response : ChecksumTiming
  deriving DecidableEq, Repr

def ChecksumConfig.standard : ChecksumConfig := ⟨.whenSupported, .whenSupported⟩

/-- A text that names no timing, in the setting of one direction. -/
structure UnknownTiming where
  text : String
  setting : String
  deriving DecidableEq, Repr

def UnknownTiming.message (e : UnknownTiming) : String :=
  Text.quoted e.text ++ " is not a valid " ++ e.setting

/-- The timing that a setting names; without a text it is the first one. -/
def ChecksumTiming.ofSetting (setting : String) : Option String →
    Except UnknownTiming ChecksumTiming
  | none => .ok .whenSupported
  | some s => match ofName? s with
    | some t => .ok t
    | none => .error ⟨s, setting⟩

/-- The configuration of two settings. -/
def ChecksumConfig.ofNames (request response : Option String) :
    Except UnknownTiming ChecksumConfig := do
  let request ← ChecksumTiming.ofSetting "RequestChecksumCalculation" request
  let response ← ChecksumTiming.ofSetting "ResponseChecksumValidation" response
  return ⟨request, response⟩

namespace ChecksumTransfer

/-! ## Requests -/

/-- Whether a request gets a checksum. -/
def requestEnabled (config : ChecksumConfig) (required explicit : Bool) : Bool :=
  config.request = .whenSupported || required || explicit

/-- A request that a checksum is attached to. -/
structure Attachment where
  request : Request
  /-- What is left of the body that was replaced. -/
  replaced : Option (Body Source)

namespace Attachment

def setHeader (name value : String) (s : Attachment) : Attachment :=
  { s with request := { s.request with headers := s.request.headers.set name value } }

/-- Takes the body and puts its framing in place. -/
def frameBody (a : Algorithm) (s : Attachment) : Attachment :=
  let (moved, left) := s.request.body.take
  ⟨{ s.request with body := Chunked.body a moved }, some left⟩

end Attachment

/-- Attaches a checksum to a request that has none of the algorithm yet, in steps that stay done if
a later one fails. -/
def attach (algorithm : String) (required explicit : Bool) (config : ChecksumConfig) :
    ExceptT UnknownAlgorithm (StateM Attachment) Unit := do
  if !requestEnabled config required explicit then return
  let a ← Algorithm.ofName algorithm
  let r := (← get).request
  if r.headers.contains a.headerName then return
  match r.body.octets? with
  | some octets => modify (·.setHeader a.headerName (Checksum.headerValue a octets))
  | none =>
    modify (·.frameBody a)
    modify (·.setHeader "content-encoding" "aws-chunked")
    modify (·.setHeader "x-amz-trailer" a.headerName)
    match r.body.contentLength with
    | some n => modify (·.setHeader "x-amz-decoded-content-length" (String.ofList (Whole.digits n)))
    | none => return

/-- How attaching a checksum to a request ends, and what has become of the request. -/
def attachTo (r : Request) (algorithm : String) (required explicit : Bool)
    (config : ChecksumConfig) : Except UnknownAlgorithm Unit × Attachment :=
  (attach algorithm required explicit config).run.run ⟨r, none⟩

/-- The request with its checksum. -/
def applyTo (r : Request) (algorithm : String) (required explicit : Bool)
    (config : ChecksumConfig) : Except UnknownAlgorithm Request :=
  let (outcome, s) := attachTo r algorithm required explicit config
  outcome.map fun _ => s.request

/-! ## Responses -/

/-- Whether a checksum is one of parts: it ends in a dash and digits. -/
def isPartLevel (s : String) : Bool :=
  let r := s.toList.reverse
  go false false r
where
  /-- Looks through the text from its end. -/
  go (number dash : Bool) : List Char → Bool
    | [] => number && dash
    | c :: r =>
      if Text.isDigitAscii c then go true dash r
      else if c = '-' then if dash then false else go number true r
      else number && dash

/-- Why a checksum that came with a response is not used. -/
inductive Notice where
  | partLevel (value : String)
  | notBase64
  deriving DecidableEq, Repr

namespace Notice

def level : Notice → String
  | partLevel _ => "WARNING"
  | notBase64 => "ERROR"

def message : Notice → String
  | partLevel value => "checksum " ++ Text.quoted value ++ " is a part-level checksum and can't " ++
      "be validated; disable checksum validation for this request to silence this warning"
  | notBase64 => "checksum received from server could not be base64 decoded; " ++
      "no checksum validation will be performed"

end Notice

/-- The first algorithm by cost that is modeled and has a header, with the header's first value. -/
def firstHeader (h : Headers) (modeled : List String) : Option (Algorithm × String) :=
  Algorithm.byCost.findSome? fun a =>
    if modeled.any fun m => Text.lowered m = a.name then (h.get? a.headerName).map (a, ·) else none

/-- The checksum to check against, and a notice if there is one that cannot be used. -/
def advertised (h : Headers) (modeled : List String) :
    Except ReadError (Option (Algorithm × Bytes) × List Notice) :=
  match firstHeader h modeled with
  | none => .ok (none, [])
  | some (a, value) =>
    if isPartLevel value then .ok (none, [.partLevel value])
    else if !value.toList.all Text.isAscii then .error .notAscii
    else match Base64.decode value.toList with
      | some expected => .ok (some (a, expected), [])
      | none => .ok (none, [.notBase64])

/-- The chunks of a stream, which fails at its end if their checksum is another one. -/
def checked (a : Algorithm) (expected : Bytes) (d : Drain StreamFault Bytes) :
    Drain StreamFault Bytes :=
  match d.failure with
  | some e => ⟨d.items, some e⟩
  | none =>
    let actual := (d.items.foldl (fun c x => c.update x) (Checksum.new a)).digest
    ⟨d.items, if actual = expected then none else some (.mismatch expected actual)⟩

/-- A body that is checked as it is read. -/
def checkedBody (a : Algorithm) (expected : Bytes) (inner : Body Source) : Body Source :=
  .ofStream (.ofDrain (checked a expected inner.drain.1)) inner.contentLength

/-- A response whose checksum has been looked for. -/
structure Validation where
  response : Response
  /-- What is left of the body that was replaced. -/
  replaced : Option (Body Source)
  notices : List Notice

/-- Puts a body in place that is checked as it is read, if there is a checksum to check. -/
def validate (r : Response) (modeled : List String) (enabled : Bool) (config : ChecksumConfig) :
    Except ReadError Validation :=
  if !enabled && config.response = .whenRequired then .ok ⟨r, none, []⟩
  else do
    let (found, notices) ← advertised r.headers modeled
    match found with
    | none => return ⟨r, none, notices⟩
    | some (a, expected) =>
      let (moved, left) := r.body.take
      return ⟨{ r with body := checkedBody a expected moved }, some left, notices⟩

end ChecksumTransfer

end Wireform
