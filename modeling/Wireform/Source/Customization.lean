import Wireform.Binding.Classify
import Wireform.Json.Writer

/-
  Wireform customizations: lines that are put into the functions for prefix headers. A customization
  sees what is generated and cannot change it otherwise.
-/

namespace Wireform

/-- The places where lines can be put: before a map is written, before the headers are read, and
after the map has been read. -/
inductive Section where
  | beforeWriting
  | beforeReading
  | afterReading
  deriving DecidableEq, Repr

def Section.name : Section → String
  | beforeWriting => "BeforeSerializingPrefixHeaders"
  | beforeReading => "BeforeIteratingOverPrefixHeaders"
  | afterReading => "AfterDeserializingPrefixHeaders"

/-- What is generated at a place. -/
structure SectionContext where
  model : Model
  operation : Shape
  container : Shape
  binding : Binding
  direction : Direction

/-- The lines for each place. -/
structure Customization where
  lines : Section → SectionContext → List String

namespace Customization

/-- Adds nothing. -/
def base : Customization := ⟨fun _ _ => []⟩

/-- Writes prefix headers in the order of their keys. -/
def sortKeys : Customization where
  lines s _ := match s with
    | .beforeWriting => ["items.sort(key=lambda item: item[0])"]
    | _ => []

/-- Refuses a header that has nothing behind the prefix. -/
def rejectEmptyKeys : Customization where
  lines s c := match s with
    | .beforeReading => [
      "for key, name in pairs:",
      "    if not key:",
      "        raise _h.ParseError(f\"header \x7bname!r\x7d has no key after prefix \" + " ++
        Json.quote c.binding.name ++ ")"]
    | _ => []

def standard : List Customization := [sortKeys]

/-- The lines of all customizations in order. -/
def linesAt (cs : List Customization) (s : Section) (c : SectionContext) : List String :=
  cs.flatMap fun x => x.lines s c

end Customization

end Wireform
