import Wireform.Number.Real
import Wireform.Text.Blank

/-
  Wireform decimals: a sign, a coefficient and a power of ten, so that 1.0 and 1.00 differ, and the
  infinities and not-a-numbers of decimal arithmetic. `read?` and `text` keep every part.
-/

namespace Wireform

inductive Decimal where
  | finite (negative : Bool) (coefficient : Nat) (exponent : Int)
  | infinite (negative : Bool)
  | nan (negative signaling : Bool) (payload : Nat)
  deriving DecidableEq, Repr

namespace Decimal

/-- The highest power of ten that a first digit may stand for. -/
def maxTop : Int := 999999999999999999

/-- The lowest exponent. -/
def minExponent : Int := -1999999999999999997

/-- Whether the parts lie within the range of decimals. -/
def inRange (coefficient : Nat) (exponent : Int) : Bool :=
  let top := if coefficient = 0 then exponent
    else exponent + (Text.ofNat coefficient).length - 1
  minExponent ≤ exponent && top ≤ maxTop

/-- A not-a-number after its sign: an optional `s`, the name and a payload of digits. -/
def readNan (negative : Bool) (s : List Char) : Option Decimal :=
  let (signaling, r) := match s with
    | 's' :: r => (true, r)
    | r => (false, r)
  if "nan".toList.isPrefixOf r && (r.drop 3).all Text.isDigitAscii then
    some (.nan negative signaling (Text.digitsValue (r.drop 3)))
  else none

/-- Reads a decimal. White space around it and underscores anywhere are passed over. -/
def read? (s : List Char) : Option Decimal :=
  let (negative, r) := Whole.takeSign
    (Text.plainDigits ((Text.trim Text.isBlank s).filter (· ≠ '_')))
  let name := Real.asciiLower r
  if name = "inf".toList || name = "infinity".toList then some (.infinite negative)
  else match readNan negative name with
    | some d => some d
    | none => do
      let p ← Real.readParts r
      if inRange p.coefficient p.scale then some (.finite negative p.coefficient p.scale) else none

/-- The digits of the coefficient with the point in its place, and an exponent unless the point
falls among the digits or at most five zeros behind it. -/
def body (coefficient : Nat) (exponent : Int) : List Char :=
  let ds := Text.ofNat coefficient
  let left := exponent + ds.length
  let point := if exponent ≤ 0 && -6 < left then left else 1
  let number :=
    if point ≤ 0 then '0' :: '.' :: List.replicate (-point).toNat '0' ++ ds
    else if ds.length ≤ point then ds ++ List.replicate (point.toNat - ds.length) '0'
    else ds.take point.toNat ++ '.' :: ds.drop point.toNat
  if left = point then number
  else number ++ 'E' :: (if left < point then '-' else '+') :: Text.ofNat (left - point).natAbs

/-- The text of a decimal. -/
def text : Decimal → List Char
  | .finite negative c e => (if negative then ['-'] else []) ++ body c e
  | .infinite negative => (if negative then "-Infinity" else "Infinity").toList
  | .nan negative signaling payload =>
    (if negative then ['-'] else []) ++ (if signaling then "sNaN" else "NaN").toList ++
      (if payload = 0 then [] else Text.ofNat payload)

end Decimal

end Wireform
