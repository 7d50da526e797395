import Wireform.Plan

/-
  Wireform source text: function definitions of the generated module and their names.
-/

namespace Wireform.Source

/-- One level of indentation. -/
def indent (line : String) : String := "    " ++ line

/-- A function: its name, what stands between the name and the body, and the lines of the body. -/
structure Definition where
  name : String
  head : String
  body : List String
  deriving DecidableEq, Repr

def Definition.lines (d : Definition) : List String :=
  ("def " ++ d.name ++ d.head) :: d.body.map fun l => if l = "" then "" else indent l

def Definition.text (d : Definition) : String := "\n".intercalate d.lines

/-! ## Names -/

/-- The name of a function for a message of an operation, or for a member of the message. -/
def functionName (role : String) (p : Plan) (container : Shape) (member : Option Member) : String :=
  "_".intercalate ([role, p.name, Name.snake container.name] ++
    (member.map fun m => Name.snake m.name).toList)

/-- The name of the constant that holds the segments of an operation's URI. -/
def uriName (p : Plan) : String := "_URI_" ++ Text.uppered p.name

def classOf (s : Shape) : String := Name.className s.name

def fieldOf (m : Member) : String := Name.field m.name

/-- The field of a member in a value. -/
def attributeOf (m : Member) : String := "value." ++ fieldOf m

end Wireform.Source
