import Wireform.Source.TypeHint
import Wireform.Source.Customization
import Wireform.Source.Expression

/-
  Wireform source text: functions that add the headers of a message and read them.
-/

namespace Wireform.Source

/-- What functions are generated from. -/
structure Writer where
  model : Model
  protocol : Protocol
  customizations : List Customization

/-- A message of an operation: its shape, bindings and direction. Values of an enum that a reader
does not know are refused if it is `strict`. -/
structure Exchange where
  plan : Plan
  container : Shape
  bindings : List Binding
  direction : Direction
  strict : Bool

namespace Writer

def formatOf (w : Writer) (b : Binding) : Except GenerateError Format :=
  GenerateError.lift (Format.ofBinding w.model w.protocol b)

def isSensitive (w : Writer) (m : Member) : Except GenerateError Bool :=
  GenerateError.lift ((w.model.isSensitive m).mapError .missing)

/-- The lines that customizations add for a binding. -/
def customLines (w : Writer) (x : Exchange) (b : Binding) (s : Section) : List String :=
  Customization.linesAt w.customizations s
    ⟨w.model, x.plan.operation, x.container, b, x.direction⟩

end Writer

namespace Exchange

/-- The name of a function for the message, or for one of its members. -/
def functionName (x : Exchange) (role : String) (m : Option Member) : String :=
  Source.functionName role x.plan x.container m

/-- The builder of a message of the direction. -/
def builder (x : Exchange) : String :=
  match x.direction with
  | .request => "_m.HttpRequestBuilder"
  | .response => "_m.HttpResponseBuilder"

end Exchange

/-! ## Adding -/

/-- The value of a header that has been checked. -/
def checkedValue (field : String) (sensitive : Bool) : String :=
  "_h.checked_header_value(\"" ++ field ++ "\", formatted, sensitive=" ++ flagLiteral sensitive ++
    ")"

/-- Adds a header of a member that is set. -/
def headerLines (w : Writer) (b : Binding) : Except GenerateError (List String) := do
  let source := attributeOf b.member
  let field := fieldOf b.member
  let format ← w.formatOf b
  let sensitive ← w.isSensitive b.member
  let required := if b.member.traits.has Trait.required then [
      "if " ++ source ++ " is None:",
      "    raise _m.BuildError.missing_field(\"" ++ field ++ "\", \"cannot be empty or unset\")"]
    else []
  return required ++ [
    "if " ++ source ++ " is not None:",
    "    formatted = " ++ headerExpression format source,
    "    if formatted:",
    "        builder.header(" ++ textLiteral b.name ++ ", " ++ checkedValue field sensitive ++ ")"]

/-- Adds a header for each entry of a map. -/
def prefixHeaderLines (w : Writer) (x : Exchange) (b : Binding) :
    Except GenerateError (List String) := do
  let source := attributeOf b.member
  let field := fieldOf b.member
  let format ← w.formatOf b
  let sensitive ← w.isSensitive b.member
  return [
    "if " ++ source ++ " is not None:",
    "    items = list(" ++ source ++ ".items())"] ++
    (w.customLines x b .beforeWriting).map indent ++ [
    "    for key, item in items:",
    "        name = _h.checked_header_name(\"" ++ field ++ "\", " ++ textLiteral b.name ++
      " + key)",
    "        formatted = " ++ headerExpression format "item",
    "        if formatted:",
    "            builder.header(name, " ++ checkedValue field sensitive ++ ")"]

def addHeaderLines (w : Writer) (x : Exchange) (b : Binding) : Except GenerateError (List String) :=
  match b.location with
  | .header => headerLines w b
  | .prefixHeaders => prefixHeaderLines w x b
  | _ => .ok []

/-- The function that adds all headers of a message. -/
def addHeaders (w : Writer) (x : Exchange) : Except GenerateError Definition := do
  let lines ← x.bindings.mapM (addHeaderLines w x)
  return {
    name := x.functionName "add_headers" none
    head := "(value: " ++ classOf x.container ++ ", builder: " ++ x.builder ++ ") -> " ++
      x.builder ++ ":"
    body := lines.flatten ++ ["return builder"] }

/-! ## Reading -/

/-- The function that reads a header. -/
def readHeader (w : Writer) (x : Exchange) (b : Binding) : Except GenerateError Definition := do
  let format ← w.formatOf b
  let hint ← TypeHint.ofMember w.model b.member
  return {
    name := x.functionName "deser_header" (some b.member)
    head := "(headers: _m.Headers) -> Optional[" ++ hint.text ++ "]:"
    body := [
      "values = headers.get_all(" ++ textLiteral b.name ++ ")",
      "return " ++ readExpression format x.strict] }

/-- The function that reads a map of headers with a common beginning. -/
def readPrefixHeader (w : Writer) (x : Exchange) (b : Binding) :
    Except GenerateError Definition := do
  let format ← w.formatOf b
  let hint ← TypeHint.ofMember w.model b.member
  return {
    name := x.functionName "deser_prefix_header" (some b.member)
    head := "(headers: _m.Headers) -> Optional[" ++ hint.text ++ "]:"
    body := [
      "pairs = list(_h.headers_for_prefix(headers.names(), " ++ textLiteral b.name ++ "))"] ++
      w.customLines x b .beforeReading ++ [
      "out: " ++ hint.text ++ " = \x7b\x7d",
      "for key, name in pairs:",
      "    values = headers.get_all(name)",
      "    out[key] = " ++ readExpression format x.strict] ++
      w.customLines x b .afterReading ++ ["return out"] }

end Wireform.Source
