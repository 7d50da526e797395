import Wireform.Text.Blank
import Wireform.Text.Quoted

/-
  Wireform header rules: which texts may be sent as names and values of headers, and the error that
  names the member a refused one came from.
-/

namespace Wireform

/-- Why a text cannot be a header's name or value. -/
inductive HeaderFault where
  | badName (name : String)
  | padded
  | control (c : Char)
  | wide (c : Char)
  deriving DecidableEq, Repr

def HeaderFault.message : HeaderFault → String
  | badName name => "invalid header name " ++ Text.quoted name
  | padded => "leading or trailing whitespace in header value"
  | control c => "invalid character " ++ Text.quoted c.toString ++ " in header value"
  | wide c => "non-latin-1 character " ++ Text.quoted c.toString ++ " in header value"

namespace HeaderRule

/-- The characters of a token. -/
def isTokenChar (c : Char) : Bool := Text.isAlnumAscii c || "!#$%&'*+-.^_`|~".toList.contains c

/-- A name is a token; a line break at its end is let through. -/
def isName (s : List Char) : Bool :=
  let t := if s.getLast? = some '\n' then s.dropLast else s
  !t.isEmpty && t.all isTokenChar

def checkName (name : String) : Except HeaderFault Unit :=
  if isName name.toList then .ok () else .error (.badName name)

/-- Control characters other than the tab. -/
def isControl (c : Char) : Bool := (c.toNat < 0x20 && c ≠ '\t') || c.toNat = 0x7f

def checkChars : List Char → Except HeaderFault Unit
  | [] => .ok ()
  | c :: r =>
    if isControl c then .error (.control c)
    else if 0xff < c.toNat then .error (.wide c)
    else checkChars r

def checkValue (value : String) : Except HeaderFault Unit :=
  if Text.trim Text.isPad value.toList ≠ value.toList then .error .padded
  else checkChars value.toList

end HeaderRule

/-- Why a message cannot be built from a value. -/
inductive BuildCause where
  | badName (name : String) (fault : HeaderFault)
  | badValue (value : String) (fault : HeaderFault)
  | hiddenValue
  | unset
  deriving DecidableEq, Repr

/-- What stands in place of a text that must not be shown. -/
def redactedText : String := "\x7bredacted\x7d"

def BuildCause.message : BuildCause → String
  | badName name fault => "`" ++ name ++ "` cannot be used as a header name: " ++ fault.message
  | badValue value fault =>
    "`" ++ value ++ "` cannot be used as a header value: " ++ fault.message
  | hiddenValue => "`" ++ redactedText ++ "` cannot be used as a header value"
  | unset => "missing: cannot be empty or unset"

/-- A message that cannot be built, and the member that is at fault. -/
structure BuildError where
  field : String
  cause : BuildCause
  deriving DecidableEq, Repr

def BuildError.message (e : BuildError) : String :=
  "invalid field in input: " ++ e.field ++ " (details: " ++ e.cause.message ++ ")"

namespace HeaderRule

/-- The name, if it may be sent. -/
def checkedName (field name : String) : Except BuildError String :=
  match checkName name with
  | .ok _ => .ok name
  | .error e => .error ⟨field, .badName name e⟩

/-- The value, if it may be sent. A refused one is not shown if it is sensitive. -/
def checkedValue (field value : String) (sensitive : Bool) : Except BuildError String :=
  match checkValue value with
  | .ok _ => .ok value
  | .error e => .error ⟨field, if sensitive then .hiddenValue else .badValue value e⟩

end HeaderRule

end Wireform
