import Wireform.Entries
import Wireform.HeaderRule
import Wireform.ParseError
import Wireform.Percent
import Wireform.Scalar
import Wireform.Uri.Segment

/-
  Wireform paths: labels are percent encoded into a path and read back by matching the path with its
  pattern, part by part.
-/

namespace Wireform

namespace Path

/-- A label's text as it stands in a path; a greedy one keeps its slashes. -/
def encodeLabel (greedy : Bool) (s : String) : String :=
  String.ofList (Percent.encode (fun c => greedy && c = '/') s.toList)

/-- The parts of a path between slashes, without those around it and without the query. -/
def parts (path : String) : List (List Char) :=
  let s := Text.trim (· = '/') (Text.cut '?' path.toList).1
  if s.isEmpty then [] else Text.pieces '/' s

/-- Matches the segments with the parts. A greedy label takes all parts that the segments behind
it leave over, and at least one. -/
def matchParts (path : String) : List Segment → List (List Char) → List (String × String) →
    Except ParseError (List (String × String))
  | [], ps, labels => if ps.isEmpty then .ok labels else .error (.pathTooLong path)
  | ⟨.greedy, name⟩ :: segments, ps, labels =>
    if ps.length ≤ segments.length then .error (.missingGreedy path name)
    else
      let n := ps.length - segments.length
      matchParts path segments (ps.drop n)
        (Entries.put name (String.ofList (Percent.decode (Text.join '/' (ps.take n)))) labels)
  | ⟨_, _⟩ :: _, [], _ => .error (.pathTooShort path)
  | ⟨.literal, content⟩ :: segments, p :: ps, labels =>
    if String.ofList p = content then matchParts path segments ps labels
    else .error (.wrongLiteral path content)
  | ⟨.label, name⟩ :: segments, p :: ps, labels =>
    if p.isEmpty then .error (.emptyLabel path name)
    else matchParts path segments ps
      (Entries.put name (String.ofList (Percent.decode p)) labels)

/-- The labels of a path that fits the pattern. -/
def labelsOf (segments : List Segment) (path : String) :
    Except ParseError (List (String × String)) :=
  matchParts path segments (parts path) []

/-- The value of a label that the path has. -/
def readLabel (labels : List (String × String)) (name : String) (converter : Converter) :
    Except WireError Value :=
  match Entries.get? name labels with
  | some text => WireError.wrap (.label name) (converter.read text)
  | none => .error (.noLabel name)

/-- Why a label has no text. -/
inductive LabelError where
  | build (e : BuildError)
  | write (e : WriteError)

/-- What stands for a label, which is neither unset nor an empty text. -/
def labelText (field : String) (encode : Value → Except WriteError Value) (v : Value) :
    Except LabelError Value :=
  if v.isNull then .error (.build ⟨field, .unset⟩)
  else match encode v with
    | .error e => .error (.write e)
    | .ok text => if text.isText "" then .error (.build ⟨field, .unset⟩) else .ok text

end Path

end Wireform
