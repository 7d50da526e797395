import Wireform.ReadError

/-
  Wireform parse errors: why the texts of a message do not have the form that its members need.
-/

namespace Wireform

inductive ParseError where
  | unterminatedQuote
  | textAfterQuote
  | tooManyItems (count : Nat)
  | incompleteDate
  | item (cause : ReadError)
  | primitive (cause : ReadError)
  | primitiveList (cause : ParseError)
  | tooManyQueryValues (count : Nat)
  | queryValue (cause : ReadError)
  | queryValueFor (key : String) (cause : ReadError)
  | label (name : String) (cause : ReadError)
  | missingGreedy (path name : String)
  | pathTooShort (path : String)
  | wrongLiteral (path literal : String)
  | emptyLabel (path name : String)
  | pathTooLong (path : String)
  deriving DecidableEq, Repr

def ParseError.message : ParseError → String
  | unterminatedQuote => "unterminated quoted header value"
  | textAfterQuote => "expected ',' after quoted header value"
  | tooManyItems n => s!"expected one item but found {n}"
  | incompleteDate => "incomplete http-date in header list"
  | item e => e.message
  | primitive e => "failed reading a list of primitives: " ++ e.message
  | primitiveList e => "failed reading a list of primitives: " ++ e.message
  | tooManyQueryValues n => s!"expected one query value but found {n}"
  | queryValue e => "invalid query value: " ++ e.message
  | queryValueFor key e => "invalid query value for " ++ key ++ ": " ++ e.message
  | label name e => "invalid label " ++ name ++ ": " ++ e.message
  | missingGreedy path name => "path " ++ Text.quoted path ++ " is missing greedy label " ++ name
  | pathTooShort path => "path " ++ Text.quoted path ++ " is too short for its URI pattern"
  | wrongLiteral path literal =>
    "path " ++ Text.quoted path ++ " does not match segment " ++ Text.quoted literal
  | emptyLabel path name => "path " ++ Text.quoted path ++ " has an empty label " ++ name
  | pathTooLong path => "path " ++ Text.quoted path ++ " is longer than its URI pattern"

/-- Why the text of a message cannot be read: it is malformed, or the arithmetic of an element
failed, or a label was asked for that no pattern has. -/
inductive WireError where
  | malformed (e : ParseError)
  | arithmetic (e : ReadError)
  | noLabel (name : String)
  deriving DecidableEq, Repr

/-- An element's error as the parse error `cause`, unless it is one of arithmetic. -/
def WireError.wrap {α : Type} (cause : ReadError → ParseError) :
    Except ReadError α → Except WireError α
  | .ok a => .ok a
  | .error e => .error (if e.isMalformed then .malformed (cause e) else .arithmetic e)

/-- A parse error as a wire error. -/
def WireError.lift {α : Type} : Except ParseError α → Except WireError α
  | .ok a => .ok a
  | .error e => .error (.malformed e)

end Wireform
