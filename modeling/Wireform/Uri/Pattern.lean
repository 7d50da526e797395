import Wireform.Text.Quoted
import Wireform.Uri.Segment

/-
  Wireform URI patterns: a path of literals and labels, and the literal part of a query. At most one
  label is greedy, and no label comes twice. `parse` reads a pattern and `text` writes it.
-/

namespace Wireform

/-- A pattern: the segments of the path, whether a slash ends it, and the pairs of the query. -/
structure Pattern where
  segments : List Segment
  trailingSlash : Bool
  query : List (String × String)
  deriving DecidableEq, Repr

/-- Why a text is no pattern. -/
inductive PatternError where
  | malformed (text : String)
  | severalGreedy (text : String)
  | repeatedLabel (text : String)
  deriving DecidableEq, Repr

def PatternError.message : PatternError → String
  | malformed text => "invalid URI pattern " ++ Text.quoted text
  | severalGreedy text => "URI pattern " ++ Text.quoted text ++ " has more than one greedy label"
  | repeatedLabel text => "URI pattern " ++ Text.quoted text ++ " repeats a label"

namespace Pattern

/-! ## Writing -/

def segmentText (s : Segment) : List Char :=
  match s.kind with
  | .literal => s.content.toList
  | .label => '\x7b' :: s.content.toList ++ ['\x7d']
  | .greedy => '\x7b' :: s.content.toList ++ ['+', '\x7d']

/-- A pair of the query; an empty value is left out with its equals sign. -/
def pairText (p : String × String) : List Char :=
  p.1.toList ++ if p.2 = "" then [] else '=' :: p.2.toList

def chars (p : Pattern) : List Char :=
  '/' :: Text.join '/' (p.segments.map segmentText) ++ (if p.trailingSlash then ['/'] else []) ++
    if p.query.isEmpty then [] else '?' :: Text.join '&' (p.query.map pairText)

/-- The text of a pattern. -/
def text (p : Pattern) : String := String.ofList p.chars

/-! ## Reading -/

def isNameStart (c : Char) : Bool := Text.isLowerAscii c || Text.isUpperAscii c || c = '_'

def isNameRest (c : Char) : Bool := isNameStart c || Text.isDigitAscii c

/-- Whether a text can name a label. -/
def isName : List Char → Bool
  | [] => false
  | c :: r => isNameStart c && r.all isNameRest

def isLiteralChar (c : Char) : Bool := !("/\x7b\x7d?&=+".toList.contains c)

def isKeyChar (c : Char) : Bool := !("&=?/\x7b\x7d".toList.contains c)

/-- The inside of a label: a name, and a plus sign if it is greedy. -/
def readLabel (s : List Char) : Option Segment :=
  if isName s then some ⟨.label, String.ofList s⟩
  else if s.getLast? = some '+' && isName s.dropLast then
    some ⟨.greedy, String.ofList s.dropLast⟩
  else none

def readSegment : List Char → Option Segment
  | '\x7b' :: r => if r.getLast? = some '\x7d' then readLabel r.dropLast else none
  | s => if !s.isEmpty && s.all isLiteralChar then some ⟨.literal, String.ofList s⟩ else none

/-- The segments behind the first slash, and whether a slash ends them. -/
def readPath (s : List Char) : Option (List Segment × Bool) :=
  if s.isEmpty then some ([], false)
  else
    let parts := Text.pieces '/' s
    let trailing := parts.getLast? = some [] && 1 < parts.length
    ((if trailing then parts.dropLast else parts).mapM readSegment).map (·, trailing)

def readPair (s : List Char) : Option (String × String) :=
  let (key, value) := Text.cut '=' s
  if !key.isEmpty && key.all isKeyChar then
    some (String.ofList key, String.ofList (value.getD []))
  else none

def readQuery : Option (List Char) → Option (List (String × String))
  | none => some []
  | some s => (Text.pieces '&' s).mapM readPair

/-- Reads a text by the grammar alone. -/
def readChars : List Char → Option Pattern
  | '/' :: r => do
    let (path, query) := Text.cut '?' r
    let (segments, trailing) ← readPath path
    return ⟨segments, trailing, ← readQuery query⟩
  | _ => none

/-! ## Labels -/

/-- The names of the labels in order. -/
def labels (p : Pattern) : List String := (p.segments.filter Segment.isLabel).map (·.content)

/-- The labels, each with the index of its segment. -/
def labelIndexes (p : Pattern) : List (String × Nat) :=
  (p.segments.zipIdx.filter fun s => s.1.isLabel).map fun s => (s.1.content, s.2)

def label? (p : Pattern) (name : String) : Option Segment :=
  p.segments.find? fun s => s.isLabel && s.content = name

/-- Whether some name comes twice. -/
def hasRepeats : List String → Bool
  | [] => false
  | n :: r => r.contains n || hasRepeats r

/-- Reads a pattern. -/
def parse (text : String) : Except PatternError Pattern :=
  match readChars text.toList with
  | none => .error (.malformed text)
  | some p =>
    if 1 < (p.segments.filter fun s => s.kind = .greedy).length then .error (.severalGreedy text)
    else if hasRepeats p.labels then .error (.repeatedLabel text)
    else .ok p

end Pattern

end Wireform
