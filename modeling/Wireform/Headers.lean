import Wireform.Entries
import Wireform.Text.Case
import Wireform.Text.Quoted

/-
  Wireform headers: fields in order under lower-case names; a name may come more than once.
-/

namespace Wireform

/-- Header fields, each a name in lower case and a value. -/
structure Headers where
  fields : List (String × String)
  deriving DecidableEq, Repr

namespace Headers

def empty : Headers := ⟨[]⟩

/-- Adds a field at the end. -/
def append (h : Headers) (name value : String) : Headers :=
  ⟨h.fields ++ [(Text.lowered name, value)]⟩

/-- Takes away every field of a name. -/
def remove (h : Headers) (name : String) : Headers :=
  ⟨h.fields.filter fun f => f.1 ≠ Text.lowered name⟩

/-- Leaves one field of a name, at the end. -/
def set (h : Headers) (name value : String) : Headers := (h.remove name).append name value

/-- The values of a name in order. -/
def getAll (h : Headers) (name : String) : List String :=
  (h.fields.filter fun f => f.1 = Text.lowered name).map (·.2)

/-- The first value of a name. -/
def get? (h : Headers) (name : String) : Option String := (h.getAll name).head?

def contains (h : Headers) (name : String) : Bool :=
  h.fields.any fun f => f.1 = Text.lowered name

/-- Each name once, in the order of first occurrence. -/
def names (h : Headers) : List String :=
  h.fields.foldl (fun ns f => if ns.contains f.1 then ns else ns ++ [f.1]) []

def size (h : Headers) : Nat := h.fields.length

def ofList (fields : List (String × String)) : Headers :=
  fields.foldl (fun h f => h.append f.1 f.2) empty

/-- How messages show pairs of texts. -/
def showPairs (fields : List (String × String)) : String :=
  Text.bracketed (fields.map fun f => Text.tuple [Text.quoted f.1, Text.quoted f.2])

/-- How messages show headers. -/
def display (h : Headers) : String := "Headers(" ++ showPairs h.fields ++ ")"

@[simp] theorem fields_append (h : Headers) (name value : String) :
    (h.append name value).fields = h.fields ++ [(Text.lowered name, value)] := rfl

@[simp] theorem fields_remove (h : Headers) (name : String) :
    (h.remove name).fields = h.fields.filter fun f => f.1 ≠ Text.lowered name := rfl

@[simp] theorem fields_set (h : Headers) (name value : String) :
    (h.set name value).fields =
      (h.fields.filter fun f => f.1 ≠ Text.lowered name) ++ [(Text.lowered name, value)] := rfl

end Headers

/-- The headers whose names start with `start` in any case: what follows it, and the name. -/
def headersForPrefix (names : List String) (start : String) : List (String × String) :=
  names.filterMap fun name =>
    let s := Text.lower name.toList
    let p := Text.lower start.toList
    if p.isPrefixOf s then some (String.ofList (s.drop p.length), name) else none

end Wireform
