import Wireform.Number.Double

/-
  Wireform doubles as text: the fewest digits that read back, and of those the nearest to the
  value. Exponents from -4 to 15 are written out; others follow the first digit and a fraction.
-/

namespace Wireform.Double

/-- The power of ten of the first digit of a quotient above zero. -/
def floorLog10 (num den : Nat) : Int :=
  if den ≤ num then ((Text.ofNat (num / den)).length : Int) - 1
  else
    let j := (Text.ofNat (den / num)).length - 1
    if den ≤ num * Nat.pow 10 j then -(j : Int) else -((j : Int) + 1)

/-- The values that round to a double, scaled: a quarter of the last place is `unit`. -/
structure Window where
  value : Nat
  low : Nat
  high : Nat
  closed : Bool

def Window.holds (w : Window) (x : Nat) : Bool :=
  if w.closed then w.low ≤ x && x ≤ w.high else w.low < x && x < w.high

/-- The window of a mantissa; below a power of two the gap is half as wide. -/
def window (m : Nat) (q : Int) (unit : Nat) : Window where
  value := 4 * m * unit
  low := (4 * m - if m = Nat.pow 2 52 && minExponent < q then 1 else 2) * unit
  high := (4 * m + 2) * unit
  closed := m % 2 = 0

/-- The multiple of ten to the `e` that stands for the double: of the two neighbours of its value
on that grid the nearer one in the window. -/
def onGrid? (m : Nat) (q e : Int) : Option Nat :=
  let unit := Nat.pow 2 (q - 2).toNat * Nat.pow 10 (-e).toNat
  let step := Nat.pow 10 e.toNat * Nat.pow 2 (2 - q).toNat
  let w := window m q unit
  let c := w.value / step
  let below := w.holds (c * step)
  let above := w.holds ((c + 1) * step)
  if below && above then
    let down := w.value - c * step
    let up := (c + 1) * step - w.value
    some (if down < up || (down = up && c % 2 = 0) then c else c + 1)
  else if below then some c
  else if above then some (c + 1)
  else none

/-- The shortest decimal of a finite double above zero: a whole number and a power of ten. -/
def shortest (m : Nat) (q : Int) : Nat × Int :=
  let top := floorLog10 (ratio m q).1 (ratio m q).2
  ((List.range 17).findSome? fun (n : Nat) =>
    let e := top - n
    (onGrid? m q e).map (·, e)).getD (m, q)

/-- Digits without the zeros at their end, and the place of the point after the first of them. -/
def significant (m : Nat) (q : Int) : List Char × Int :=
  let (c, e) := shortest m q
  let ds := Text.ofNat c
  (Text.trimEnd (· = '0') ds, ds.length + e)

/-- The digits with their point, which stands before the digit number `point`. -/
def positional (ds : List Char) (point : Int) : List Char :=
  if point ≤ 0 then '0' :: '.' :: List.replicate (-point).toNat '0' ++ ds
  else if ds.length ≤ point then ds ++ List.replicate (point.toNat - ds.length) '0' ++ ['.', '0']
  else ds.take point.toNat ++ '.' :: ds.drop point.toNat

/-- The digits with an exponent of at least two digits. -/
def exponential (ds : List Char) (point : Int) : List Char :=
  let e := point - 1
  ds.take 1 ++ (if ds.length ≤ 1 then [] else '.' :: ds.drop 1) ++
    'e' :: (if e < 0 then '-' else '+') :: Text.padded 2 e.natAbs

/-- The text of a double. -/
def text : Double → List Char
  | .nan => "nan".toList
  | .infinite negative => (if negative then "-inf" else "inf").toList
  | .finite negative m q =>
    let body :=
      if m = 0 then "0.0".toList
      else
        let (ds, point) := significant m q
        if -4 < point && point ≤ 16 then positional ds point else exponential ds point
    if negative then '-' :: body else body

end Wireform.Double
