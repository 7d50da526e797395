import Wireform.Text.Basic
import Wireform.Text.CaseTable

/-
  Wireform text: lower and upper case by the character standard. A capital sigma at the end of a
  word has a lower-case form of its own, and some upper-case forms are several characters long.
-/

namespace Wireform.Text

/-- The image of `n` under the run that holds it. -/
def runImage? (runs : List (Nat × Nat × Nat × Nat)) (n : Nat) : Option Nat :=
  (runs.find? fun (a, b, step, _) => a ≤ n && n ≤ b && (n - a) % step == 0).map
    fun (a, _, _, image) => image + (n - a)

/-- `c` moved by the run that holds it, if there is one. -/
def moved (runs : List (Nat × Nat × Nat × Nat)) (c : Char) : Char :=
  ((runImage? runs c.toNat).map Char.ofNat).getD c

/-- The lower-case form of a character that does not look at its neighbours. -/
def lowerChar (c : Char) : List Char :=
  if isAscii c then [if isUpperAscii c then Char.ofNat (c.toNat + 32) else c]
  else if c = '\u0130' then ['i', '\u0307']
  else [moved lowerRuns c]

/-- Whether the nearest character that is not passed over is a cased letter. -/
def nextIsCased : List Char → Bool
  | [] => false
  | c :: r => if inRanges ignorableRanges c then nextIsCased r else inRanges casedRanges c

/-- A sigma is final if a cased letter comes before it and none after it. -/
def lowerSigma (before after : List Char) : Char :=
  if nextIsCased before && !nextIsCased after then 'ς' else 'σ'

/-- The text in lower case. -/
def lower (s : List Char) : List Char := go [] s
where
  /-- `before` holds the characters already read, the nearest first. -/
  go (before : List Char) : List Char → List Char
    | [] => []
    | c :: r =>
      (if c = 'Σ' then [lowerSigma before r] else lowerChar c) ++ go (c :: before) r

/-- The upper-case form of a character. -/
def upperChar (c : Char) : List Char :=
  if isAscii c then [if isLowerAscii c then Char.ofNat (c.toNat - 32) else c]
  else match upperExpansions.find? (·.1 == c.toNat) with
    | some (_, cs) => cs.map Char.ofNat
    | none => [moved upperRuns c]

/-- The text in upper case. -/
def upper (s : List Char) : List Char := s.flatMap upperChar

/-- `lower` on strings. -/
def lowered (s : String) : String := String.ofList (lower s.toList)

/-- `upper` on strings. -/
def uppered (s : String) : String := String.ofList (upper s.toList)

end Wireform.Text
