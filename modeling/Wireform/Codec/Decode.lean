import Wireform.Body.Basic
import Wireform.Codec.Schema
import Wireform.Json.Octets
import Wireform.Json.Whole

/-
  Wireform codec, reading: an object's entries are read under the wire names of the fields, or under
  the fields' own names; entries that belong to no field are passed over.
-/

namespace Wireform

/-- Why an entry of an object does not fit its field. -/
inductive FieldFault where
  | read (e : ReadError)
  | whole (e : WholeFault)
  | notIterable (kind : String)
  | notOctets (kind : String)
  | badOctets (format : TimestampFormat) (octets : Bytes)
  | octetsForText
  | noOperation (kind operation : String)
  deriving DecidableEq, Repr

namespace FieldFault

/-- Whether the entry is invalid, and not the arithmetic done with it. -/
def isInvalid : FieldFault → Bool
  | read e => e.isMalformed
  | whole e => e.isMalformed
  | noOperation _ _ => false
  | _ => true

def message : FieldFault → String
  | read e => e.message
  | whole e => e.message
  | notIterable kind => "'" ++ kind ++ "' object is not iterable"
  | notOctets kind =>
    "argument should be a bytes-like object or ASCII string, not '" ++ kind ++ "'"
  | badOctets format octets => "invalid " ++ format.name ++ ": " ++ Value.shownBytes octets
  | octetsForText => "endswith first arg must be bytes or a tuple of bytes, not str"
  | noOperation kind operation => "'" ++ kind ++ "' object has no attribute '" ++ operation ++ "'"

end FieldFault

/-- Why a payload cannot be decoded. A number with too many digits and a fault of arithmetic are no
matter of the payload's form. -/
inductive CodecError where
  | invalidJson
  | tooManyDigits (digits : Nat)
  | notObject (type : String)
  | invalidRecord (type : String) (fault : FieldFault)
  | arithmetic (fault : FieldFault)
  | invalidUtf8
  | notMember (e : ReadError)
  | stream (fault : StreamFault)
  deriving DecidableEq, Repr

def CodecError.message : CodecError → String
  | invalidJson => "invalid JSON body"
  | tooManyDigits n => Whole.tooLongToRead n
  | notObject type => "expected a JSON object for " ++ type
  | invalidRecord type fault => "invalid " ++ type ++ ": " ++ fault.message
  | arithmetic fault => fault.message
  | invalidUtf8 => "payload was not valid utf-8"
  | notMember e => e.message
  | stream fault => fault.message

namespace Codec

/-- The document of octets. -/
def decodeJson (data : Bytes) : Except CodecError Json :=
  match Json.readOctets data with
  | .ok j => .ok j
  | .error .malformed => .error .invalidJson
  | .error (.tooManyDigits n) => .error (.tooManyDigits n)

/-- An entry as a whole number; one with a fraction loses it. -/
def readWhole : Json → Except FieldFault Value
  | .flag b => .ok (.flag b)
  | j => (j.toWhole.map .whole).mapError .whole

/-- An entry as a list of texts. -/
def readTexts : Json → Except FieldFault Value
  | .list xs => .ok (.list (xs.map fun x => .text x.plain))
  | .text s => .ok (.list (s.toList.map fun c => .text c.toString))
  | .map fields => .ok (.list (fields.map fun f => .text f.1))
  | j => .error (.notIterable j.kindName)

/-- Octets as a timestamp: only a number of seconds can be read from them. -/
def readTimestampOctets (format : TimestampFormat) (octets : Bytes) : Except FieldFault Value :=
  let b := Bytes.trim octets
  match format with
  | .dateTime => .error .octetsForText
  | .httpDate => .error (.badOctets format b)
  | .epochSeconds =>
    match if b.all Bytes.isAscii then Real.read b.toChars else none with
    | some x => ((Moment.ofSeconds x).map .moment).mapError .read
    | none => .error (.badOctets format b)

/-- A value as a timestamp: a number counts seconds since the epoch, a text has the format. -/
def readTimestamp (format : TimestampFormat) : Value → Except FieldFault Value
  | .null => .ok .null
  | .moment m => .ok (.moment m)
  | .flag b => ((Moment.ofWholeSeconds (if b then 1 else 0)).map .moment).mapError .read
  | .whole n => ((Moment.ofWholeSeconds n).map .moment).mapError .read
  | .real x => ((Moment.ofSeconds x).map .moment).mapError .read
  | .text s => ((Timestamp.read format s).map .moment).mapError .read
  | .blob b => readTimestampOctets format b
  | v => .error (.noOperation v.fullKindName "strip")

/-- A value as octets: a text holds them in base64. -/
def readBlob : Value → Except FieldFault Value
  | .null => .ok .null
  | .blob b => .ok (.blob b)
  | .text s => ((Scalar.readBase64 s).map .blob).mapError .read
  | v => .error (.notOctets v.kindName)

/-- An entry as a member of an enumeration. -/
def readMember (e : Enumeration) (j : Json) : Except FieldFault Value :=
  match j with
  | .text s => (e.read true s).mapError .read
  | j => .error (.read (.notMember j.display e.name))

/-- The entries under the names of the fields. -/
def renamed (fields : List (String × String × FieldKind)) (entries : List (String × Json)) :
    List (String × Json) :=
  Entries.ofPairs (entries.map fun (k, j) =>
    (((fields.find? fun f => f.2.1 = k).map (·.1)).getD k, j))

mutual

/-- An entry as the value of a field. -/
def readField : FieldKind → Json → Except FieldFault Value
  | _, .null => .ok .null
  | .text, j => .ok (.text j.plain)
  | .whole, j => readWhole j
  | .texts, j => readTexts j
  | .timestamp format, j => readTimestamp format (.ofJson j)
  | .blob, j => readBlob (.ofJson j)
  | .member e, j => readMember e j
  | .record type fields, .map entries =>
    (readFields fields (renamed fields entries)).map (.record type)
  | .record _ _, j => .error (.noOperation j.kindName "items")

/-- The fields of a record from entries under their names. -/
def readFields : List (String × String × FieldKind) → List (String × Json) →
    Except FieldFault (List (String × Value))
  | [], _ => .ok []
  | (name, _, kind) :: r, entries => do
    let v ← readField kind ((Entries.get? name entries).getD .null)
    let vs ← readFields r entries
    return (name, v) :: vs

end

/-- The record of a document. -/
def recordOfJson (s : Schema) : Json → Except CodecError Value
  | .map entries =>
    match readFields s.fields (renamed s.fields entries) with
    | .ok fields => .ok (.record s.type fields)
    | .error e => .error (if e.isInvalid then .invalidRecord s.type e else .arithmetic e)
  | _ => .error (.notObject s.type)

/-- What octets are decoded into: any document, or a structure. -/
inductive Target where
  | document
  | record (schema : Schema)

/-- What stands for a body without octets: an empty object, or every field unset. -/
def Target.unset : Target → Value
  | document => .map []
  | record s => s.unset

/-- The value of octets. -/
def decode (target : Target) (data : Bytes) : Except CodecError Value := do
  let j ← decodeJson data
  match target with
  | .document => return .ofJson j
  | .record s => recordOfJson s j

/-- The value of a body. -/
def decodeBody (target : Target) (body : Body Source) : Except CodecError Value := do
  let data ← body.read.mapError .stream
  if data.isEmpty then return target.unset
  decode target data

/-- The text of a payload. -/
def decodeText (data : Bytes) : Except CodecError String :=
  match Utf8.toString? data with
  | some s => .ok s
  | none => .error .invalidUtf8

/-- The enum member whose text is the payload. -/
def decodeMember (e : Enumeration) (strict : Bool) (data : Bytes) : Except CodecError Value := do
  (e.read strict (← decodeText data)).mapError .notMember

end Codec

end Wireform
