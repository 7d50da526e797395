import Wireform.Source.Definition
import Wireform.Source.Literal

/-
  Wireform source text: expressions that turn values into text and back, by their format.
-/

namespace Wireform.Source

/-! ## Writing -/

/-- The text of the element in an operand. -/
def encodeExpression (t : Transform) (operand : String) : String :=
  match t with
  | .verbatim => operand
  | .member => "_prim.enum_text(" ++ operand ++ ")"
  | .base64 => "_prim.base64_encode(" ++ operand ++ ")"
  | .scalar _ => "_prim.encode_primitive(" ++ operand ++ ")"
  | .timestamp f => "_ts.fmt_timestamp(" ++ operand ++ ", " ++ formatLiteral f ++ ")"

/-- The whole value of a header. A single text goes out as it is, with its commas. -/
def headerExpression (f : Format) (operand : String) : String :=
  if f.isSingular then encodeExpression f.transform operand
  else
    let item := encodeExpression f.transform "element"
    let item := if f.quote then "_h.quote_header_value(" ++ item ++ ")" else item
    "\", \".join(" ++ item ++ " for element in " ++ operand ++ ")"

/-! ## Reading -/

def scalarLiteral (k : ScalarKind) : String := textLiteral k.name

/-- What reads one element, or nothing for plain text. -/
def converterExpression (f : Format) (strict : Bool) : String :=
  match f.transform with
  | .verbatim => "None"
  | .member => "lambda text: _prim.parse_enum(" ++ classOf f.element ++ ", text, strict=" ++
      flagLiteral strict ++ ")"
  | .base64 => if f.media then "_prim.base64_decode_text" else "_prim.base64_decode"
  | .scalar k => "lambda text: _prim.parse_primitive(text, " ++ scalarLiteral k ++ ")"
  | .timestamp t => "lambda text: _ts.parse_timestamp(text, " ++ formatLiteral t ++ ")"

/-- The elements of the values of a header. -/
def elementsExpression (f : Format) (strict : Bool) : String :=
  match f.transform with
  | .verbatim => "_h.read_many_from_str(values)"
  | .timestamp t => "_h.many_dates(values, " ++ formatLiteral t ++ ")"
  | .scalar k => "_h.read_many_primitive(values, " ++ scalarLiteral k ++ ")"
  | .base64 | .member =>
    if f.media then "_h.read_many_media(values)"
    else "_h.read_many_from_str(values, " ++ converterExpression f strict ++ ")"

/-- The value of a header. A single text is not split at commas. -/
def readExpression (f : Format) (strict : Bool) : String :=
  if f.isSingular then
    if f.transform = .verbatim then "_h.one_or_none(values)"
    else "_h.expect_at_most_one(" ++ elementsExpression f strict ++ ")"
  else "_h.none_if_empty(" ++ elementsExpression f strict ++ ")"

end Wireform.Source
