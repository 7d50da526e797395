import Wireform.Json.Basic
import Wireform.Number.Shortest
import Wireform.Number.Whole
import Wireform.Text.Quoted

/-
  Wireform JSON text as it is written: ASCII only, a blank after each comma and colon. `compact`
  stands on one line and `pretty` has a line for every entry. `display` is how messages show a
  document.
-/

namespace Wireform.Json

/-- Four hexadecimal digits behind a backslash. -/
def unitEscape (n : Nat) : List Char := '\\' :: 'u' :: Text.hexPadded 4 n

/-- One character inside quotes. -/
def escapeChar (c : Char) : List Char :=
  if c = '"' then ['\\', '"']
  else if c = '\\' then ['\\', '\\']
  else if c = '\n' then ['\\', 'n']
  else if c = '\r' then ['\\', 'r']
  else if c = '\t' then ['\\', 't']
  else if c = '\x08' then ['\\', 'b']
  else if c = '\x0c' then ['\\', 'f']
  else if 0x20 ≤ c.toNat && c.toNat < 0x7f then [c]
  else if c.toNat < 0x10000 then unitEscape c.toNat
  else unitEscape (0xd800 + (c.toNat - 0x10000) / 1024) ++
    unitEscape (0xdc00 + (c.toNat - 0x10000) % 1024)

/-- A text in double quotes. -/
def quoteChars (s : List Char) : List Char := '"' :: s.flatMap escapeChar ++ ['"']

/-- `quoteChars` on strings. -/
def quote (s : String) : String := String.ofList (quoteChars s.toList)

/-- The text of a double, which may be none of JSON's own. -/
def realChars : Double → List Char
  | .nan => "NaN".toList
  | .infinite negative => (if negative then "-Infinity" else "Infinity").toList
  | x => x.text

mutual

/-- The document on one line. -/
def compactChars : Json → List Char
  | .null => "null".toList
  | .flag b => (if b then "true" else "false").toList
  | .whole n => Whole.digits n
  | .real x => realChars x
  | .text s => quoteChars s.toList
  | .list [] => "[]".toList
  | .list (x :: xs) => '[' :: compactChars x ++ compactItems xs
  | .map [] => ['\x7b', '\x7d']
  | .map ((k, v) :: r) =>
    '\x7b' :: quoteChars k.toList ++ ':' :: ' ' :: compactChars v ++ compactFields r

/-- The items after the first one, up to the closing bracket. -/
def compactItems : List Json → List Char
  | [] => [']']
  | x :: xs => ',' :: ' ' :: compactChars x ++ compactItems xs

/-- The fields after the first one, up to the closing brace. -/
def compactFields : List (String × Json) → List Char
  | [] => ['\x7d']
  | (k, v) :: r =>
    ',' :: ' ' :: quoteChars k.toList ++ ':' :: ' ' :: compactChars v ++ compactFields r

end

/-- `compactChars` as a string. -/
def compact (j : Json) : String := String.ofList (compactChars j)

/-- A line break and `n` levels of two blanks. -/
def newLine (n : Nat) : List Char := '\n' :: List.replicate (2 * n) ' '

mutual

/-- The document with a line for every entry, where `n` levels are open. -/
def prettyChars (n : Nat) : Json → List Char
  | .list (x :: xs) => '[' :: newLine (n + 1) ++ prettyChars (n + 1) x ++ prettyItems n xs
  | .map ((k, v) :: r) =>
    '\x7b' :: newLine (n + 1) ++ quoteChars k.toList ++ ':' :: ' ' :: prettyChars (n + 1) v ++
      prettyFields n r
  | .null => "null".toList
  | .flag b => (if b then "true" else "false").toList
  | .whole k => Whole.digits k
  | .real x => realChars x
  | .text s => quoteChars s.toList
  | .list [] => "[]".toList
  | .map [] => ['\x7b', '\x7d']

def prettyItems (n : Nat) : List Json → List Char
  | [] => newLine n ++ [']']
  | x :: xs => ',' :: newLine (n + 1) ++ prettyChars (n + 1) x ++ prettyItems n xs

def prettyFields (n : Nat) : List (String × Json) → List Char
  | [] => newLine n ++ ['\x7d']
  | (k, v) :: r =>
    ',' :: newLine (n + 1) ++ quoteChars k.toList ++ ':' :: ' ' :: prettyChars (n + 1) v ++
      prettyFields n r

end

/-- `prettyChars` as a string. -/
def pretty (j : Json) : String := String.ofList (prettyChars 0 j)

mutual

/-- How messages show a document inside another one. -/
def display : Json → String
  | .null => "None"
  | .flag b => if b then "True" else "False"
  | .whole n => String.ofList (Whole.digits n)
  | .real x => String.ofList x.text
  | .text s => Text.quoted s
  | .list xs => Text.bracketed (displayItems xs)
  | .map fields => "\x7b" ++ ", ".intercalate (displayFields fields) ++ "\x7d"

def displayItems : List Json → List String
  | [] => []
  | x :: xs => display x :: displayItems xs

def displayFields : List (String × Json) → List String
  | [] => []
  | (k, v) :: r => (Text.quoted k ++ ": " ++ display v) :: displayFields r

end

/-- The text of a document: a text is its own, and others are shown as in messages. -/
def plain : Json → String
  | .text s => s
  | j => j.display

/-- The name of a document's kind in messages. -/
def kindName : Json → String
  | .null => "NoneType"
  | .flag _ => "bool"
  | .whole _ => "int"
  | .real _ => "float"
  | .text _ => "str"
  | .list _ => "list"
  | .map _ => "dict"

end Wireform.Json
