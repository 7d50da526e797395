import Wireform.Json.Writer
import Wireform.Text.Blank
import Wireform.Time.Timestamp

/-
  Wireform source text: literals of the generated Python module.
-/

namespace Wireform.Source

/-- A text in double quotes; everything outside ASCII is escaped. -/
def textLiteral (s : String) : String := Json.quote s

def flagLiteral (b : Bool) : String := if b then "True" else "False"

/-- A tuple of texts. -/
def textsLiteral (ts : List String) : String := Text.tuple (ts.map Text.quoted)

/-- A tuple of whole numbers. -/
def numbersLiteral (ns : List Nat) : String := Text.tuple (ns.map fun n => toString n)

/-- The constant of a timestamp format. -/
def formatLiteral (f : TimestampFormat) : String :=
  "_ts.TimestampFormat." ++ match f with
    | .dateTime => "DATE_TIME"
    | .httpDate => "HTTP_DATE"
    | .epochSeconds => "EPOCH_SECONDS"

/-! ## Documentation -/

/-- Puts three single quotes in place of each three double quotes, from the left. -/
def softenQuotes : List Char → List Char
  | '"' :: '"' :: '"' :: r => '\'' :: '\'' :: '\'' :: softenQuotes r
  | c :: r => c :: softenQuotes r
  | [] => []

/-- Writes every backslash twice. -/
def doubleBackslashes (s : List Char) : List Char :=
  s.flatMap fun c => if c = '\\' then ['\\', '\\'] else [c]

/-- Documentation on one line, as it stands between three double quotes. -/
def documentation (s : String) : String :=
  String.ofList (doubleBackslashes (softenQuotes
    (Text.join ' ' (Text.words Text.isBlank s.toList))))

end Wireform.Source
