/-
  Wireform path segments: a path pattern is a list of literals and labels, and a greedy label may
  span several parts of a path.
-/

namespace Wireform

inductive SegmentKind where
  | literal
  | label
  | greedy
  deriving DecidableEq, Repr

def SegmentKind.name : SegmentKind → String
  | literal => "literal"
  | label => "label"
  | greedy => "greedy"

/-- A literal, or a label with its name. -/
structure Segment where
  kind : SegmentKind
  content : String
  deriving DecidableEq, Repr

def Segment.isLabel (s : Segment) : Bool := s.kind ≠ .literal

end Wireform
