import Wireform.Json.Writer
import Wireform.ReadError

/-
  Wireform JSON: documents as whole numbers. A fraction is cut off, and a text is read.
-/

namespace Wireform

/-- Why a document is no whole number. -/
inductive WholeFault where
  | read (e : ReadError)
  | nan
  | infinite
  | notNumber (kind : String)
  deriving DecidableEq, Repr

def WholeFault.message : WholeFault → String
  | read e => e.message
  | nan => "cannot convert float NaN to integer"
  | infinite => ""
  | notNumber kind => "int() argument must be a string, a bytes-like object or a real number, " ++
      "not '" ++ kind ++ "'"

/-- Whether the document is at fault, and not the arithmetic done with it. -/
def WholeFault.isMalformed : WholeFault → Bool
  | read e => e.isMalformed
  | infinite => false
  | _ => true

/-- The whole number that a document gives. -/
def Json.toWhole : Json → Except WholeFault Int
  | .flag b => .ok (if b then 1 else 0)
  | .whole n => .ok n
  | .real x =>
    match x.truncate? with
    | some n => .ok n
    | none => .error (if x.isNaN then .nan else .infinite)
  | .text s => (Whole.ofText s).mapError .read
  | j => .error (.notNumber j.kindName)

end Wireform
