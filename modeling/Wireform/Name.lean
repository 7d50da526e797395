import Wireform.Text.Case
import Wireform.Text.Digit

/-
  Wireform names: how the names of a model become identifiers. `snake` breaks a name into lower-case
  words, `camel` joins words with capitals, and `safe` steps aside for words with a meaning of their
  own.
-/

namespace Wireform.Name

/-! ## Words -/

/-- Puts a bar before the last capital of a run that a small letter follows. -/
def breakAcronyms : List Char → List Char
  | a :: b :: c :: r =>
    if Text.isUpperAscii a && Text.isUpperAscii b && Text.isLowerAscii c then
      a :: '_' :: breakAcronyms (b :: c :: r)
    else a :: breakAcronyms (b :: c :: r)
  | s => s

/-- Puts a bar between a small letter or digit and a capital. -/
def breakWords : List Char → List Char
  | a :: b :: r =>
    if (Text.isLowerAscii a || Text.isDigitAscii a) && Text.isUpperAscii b then
      a :: '_' :: breakWords (b :: r)
    else a :: breakWords (b :: r)
  | s => s

/-- The runs of ASCII letters and digits, where a run of other characters is a cut even at an end of
the text. -/
def parts (s : List Char) : List (List Char) := go [] false s
where
  /-- `word` holds the current run, the last character first. -/
  go (word : List Char) (cut : Bool) : List Char → List (List Char)
    | [] => [word.reverse]
    | c :: r =>
      if Text.isAlnumAscii c then go (c :: word) false r
      else if cut then go word true r
      else word.reverse :: go [] true r

/-- A name in lower-case words with bars between them. -/
def snakeChars (s : List Char) : List Char :=
  Text.lower (Text.join '_' ((parts (breakWords (breakAcronyms s))).filter (· ≠ [])))

/-- `snakeChars` on strings. -/
def snake (s : String) : String := String.ofList (snakeChars s.toList)

/-- The words of a name, each with a capital in front. -/
def camelChars (s : List Char) : List Char :=
  (parts s).flatMap fun w => Text.upper (w.take 1) ++ w.drop 1

/-- `camelChars` on strings. -/
def camel (s : String) : String := String.ofList (camelChars s.toList)

/-! ## Identifiers -/

/-- Words that cannot be identifiers. -/
def keywords : List String := ["False", "None", "True", "and", "as", "assert", "async", "await",
  "break", "class", "continue", "def", "del", "elif", "else", "except", "finally", "for", "from",
  "global", "if", "import", "in", "is", "lambda", "nonlocal", "not", "or", "pass", "raise",
  "return", "try", "while", "with", "yield"]

/-- Words that have a meaning of their own in some places. -/
def softKeywords : List String := ["_", "case", "match"]

/-- Names that every class uses already. -/
def reservedFields : List String := ["field", "config", "dataclass", "datetime", "to_dict",
  "from_dict", "to_json", "from_json", "schema"]

/-- A name with a bar added if it is a keyword or starts with a digit. -/
def safe (s : String) : String :=
  if keywords.contains s || softKeywords.contains s then s ++ "_"
  else if (s.toList.take 1).any Text.isDigit then "_" ++ s
  else s

/-- The field for a member. -/
def field (s : String) : String :=
  let name := safe (if snake s = "" then "_" else snake s)
  if reservedFields.contains name then name ++ "_" else name

/-- The class for a shape. -/
def className (s : String) : String := if camel s = "" then "_" else safe (camel s)

/-- The name of an enum's member. -/
def enumMember (s : String) : String :=
  let name := Text.uppered (snake s)
  safe (if name = "" then "_" else name)

end Wireform.Name
