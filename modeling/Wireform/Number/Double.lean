import Wireform.Text.Basic

/-
  Wireform doubles: the numbers of the 64-bit binary format, held exactly. A finite one is a
  mantissa below 2^53 times a power of two, with the exponent as low as that allows but not below
  -1074. `ofRatio` rounds a quotient to the nearest, a tie to the even mantissa.
-/

namespace Wireform

inductive Double where
  | nan
  | infinite (negative : Bool)
  | finite (negative : Bool) (mantissa : Nat) (exponent : Int)
  deriving DecidableEq, Repr

namespace Double

/-- The lowest exponent of a finite double. -/
def minExponent : Int := -1074

/-- The highest exponent of a finite double. -/
def maxExponent : Int := 971

/-- The quotient rounded to the nearest whole number, a tie to the even one. -/
def roundQuotient (num den : Nat) : Nat :=
  let q := num / den
  let r := num % den
  if 2 * r < den then q
  else if den < 2 * r then q + 1
  else if q % 2 = 0 then q
  else q + 1

/-- The whole number whose power of two is the highest one not above the quotient. -/
def floorLog2 (num den : Nat) : Int :=
  let k : Int := (num.log2 : Int) - den.log2
  if num * Nat.pow 2 (-k).toNat < den * Nat.pow 2 k.toNat then k - 1 else k

/-- A mantissa of at most 2^53 with its exponent. -/
def pack (negative : Bool) (m : Nat) (q : Int) : Double :=
  if m = Nat.pow 2 53 then
    if maxExponent ≤ q then .infinite negative else .finite negative (Nat.pow 2 52) (q + 1)
  else if maxExponent < q then .infinite negative
  else .finite negative m q

/-- The double nearest to the quotient. -/
def ofRatio (negative : Bool) (num den : Nat) : Double :=
  if num = 0 then .finite negative 0 minExponent
  else
    let q := max (floorLog2 num den - 52) minExponent
    pack negative (roundQuotient (num * Nat.pow 2 (-q).toNat) (den * Nat.pow 2 q.toNat)) q

/-- The double nearest to `n` times a power of ten. Exponents far outside the range of doubles
need no arithmetic. -/
def ofScientific (negative : Bool) (n : Nat) (e : Int) : Double :=
  let top := e + (Text.ofNat n).length
  if n = 0 || top < -400 then .finite negative 0 minExponent
  else if 400 < top then .infinite negative
  else ofRatio negative (n * Nat.pow 10 e.toNat) (Nat.pow 10 (-e).toNat)

/-- The double nearest to a whole number. -/
def ofInt (n : Int) : Double := ofRatio (n < 0) n.natAbs 1

/-- The size of a finite double as a quotient. -/
def ratio (m : Nat) (q : Int) : Nat × Nat := (m * Nat.pow 2 q.toNat, Nat.pow 2 (-q).toNat)

def isNaN : Double → Bool
  | .nan => true
  | _ => false

/-- The whole number with the fraction dropped. -/
def truncate? : Double → Option Int
  | .finite negative m q =>
    let n : Int := ((ratio m q).1 / (ratio m q).2 : Nat)
    some (if negative then -n else n)
  | _ => none

/-- Whether a finite double has no fraction. -/
def isWhole : Double → Bool
  | .finite _ m q => (ratio m q).1 % (ratio m q).2 = 0
  | _ => false

/-- Rounded to `places` decimals, a tie to the even digit. -/
def roundPlaces (places : Nat) : Double → Double
  | .finite negative m q =>
    let (num, den) := ratio m q
    ofRatio negative (roundQuotient (num * Nat.pow 10 places) den) (Nat.pow 10 places)
  | x => x

end Double

end Wireform
