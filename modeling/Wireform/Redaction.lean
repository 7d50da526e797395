import Wireform.HeaderRule
import Wireform.Message

/-
  Wireform redaction: which parts of a message a log must not show, and the lines of the log. A
  clause that was never given marks nothing.
-/

namespace Wireform

/-- Whether a header's value is sensitive, and where in its name a sensitive key starts. -/
structure HeaderMark where
  value : Bool
  keyStart : Option Nat
  deriving DecidableEq, Repr

def HeaderMark.none : HeaderMark := ⟨false, .none⟩

/-- Whether the key and the value of a query pair are sensitive. -/
structure QueryMark where
  key : Bool
  value : Bool
  deriving DecidableEq, Repr

def QueryMark.none : QueryMark := ⟨false, false⟩

/-- The clauses of an operation: by path index, by query key, and by header name. -/
structure Redaction where
  path : Option (Int → Bool)
  query : Option (String → QueryMark)
  requestHeader : Option (String → HeaderMark)
  responseHeader : Option (String → HeaderMark)
  statusCode : Bool

namespace Redaction

def empty : Redaction := ⟨none, none, none, none, false⟩

def isEmpty (r : Redaction) : Bool :=
  r.path.isNone && r.query.isNone && r.requestHeader.isNone && r.responseHeader.isNone &&
    !r.statusCode

def marksPath (r : Redaction) (index : Int) : Bool := r.path.any fun f => f index

def queryMark (r : Redaction) (key : String) : QueryMark :=
  match r.query with
  | some f => f key
  | none => .none

def requestMark (r : Redaction) (name : String) : HeaderMark :=
  match r.requestHeader with
  | some f => f (Text.lowered name)
  | none => .none

def responseMark (r : Redaction) (name : String) : HeaderMark :=
  match r.responseHeader with
  | some f => f (Text.lowered name)
  | none => .none

/-- The marks of a list of names and one of prefixes, where the names come first. -/
def headerClause (names prefixes : List String) (name : String) : HeaderMark :=
  if names.contains name then ⟨true, none⟩
  else match prefixes.find? fun p => p.toList.isPrefixOf name.toList with
    | some p => ⟨true, some p.length⟩
    | none => .none

/-- The marks of a list of query keys. -/
def queryClause (keys : List String) (key : String) : QueryMark := ⟨false, keys.contains key⟩

/-- Everything in a query is marked. -/
def wholeQuery (_ : String) : QueryMark := ⟨true, true⟩

/-! ## What a log shows -/

def hide (marked : Bool) (s : String) : String := if marked then redactedText else s

/-- The path with every marked segment hidden. -/
def redactPath (r : Redaction) (path : String) : String :=
  let segments := Text.pieces '/' (path.toList.dropWhile (· = '/'))
  "/" ++ "/".intercalate (segments.zipIdx.map fun (s, i) => hide (r.marksPath i) (String.ofList s))

def redactQuery (r : Redaction) (params : List (String × String)) : List (String × String) :=
  params.map fun (k, v) => (hide (r.queryMark k).key k, hide (r.queryMark k).value v)

/-- The field with what is marked hidden. -/
def redactField (mark : String → HeaderMark) (f : String × String) : String × String :=
  let m := mark f.1
  (match m.keyStart with
    | some n => String.ofList (f.1.toList.take n) ++ redactedText
    | none => f.1,
  hide m.value f.2)

def redactHeaders (mark : String → HeaderMark) (h : Headers) : List (String × String) :=
  h.fields.map (redactField mark)

/-- The log line of a request. -/
def requestLine (r : Redaction) (request : Request) : String :=
  "request method=" ++ request.method ++ " path=" ++ r.redactPath request.path ++ " query=" ++
    Headers.showPairs (r.redactQuery request.query) ++ " headers=" ++
    Headers.showPairs (redactHeaders r.requestMark request.headers)

/-- The log line of a response. -/
def responseLine (r : Redaction) (response : Response) : String :=
  "response status=" ++ hide r.statusCode (String.ofList (Whole.digits response.status)) ++
    " headers=" ++ Headers.showPairs (redactHeaders r.responseMark response.headers)

end Redaction

end Wireform
