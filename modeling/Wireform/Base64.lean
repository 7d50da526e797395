import Wireform.Text.Basic
import Wireform.Bytes

/-
  Wireform base64 with the standard alphabet. Decoding refuses characters outside the alphabet and
  wrong padding; signs of padding after a complete group are passed over.
-/

namespace Wireform.Base64

/-- The character of a value below 64. -/
def sign (n : Nat) : Char :=
  if n < 26 then Char.ofNat (65 + n)
  else if n < 52 then Char.ofNat (71 + n)
  else if n < 62 then Char.ofNat (n - 4)
  else if n = 62 then '+'
  else '/'

/-- The value of a character of the alphabet. -/
def value? (c : Char) : Option Nat :=
  if Text.isUpperAscii c then some (c.toNat - 65)
  else if Text.isLowerAscii c then some (c.toNat - 71)
  else if Text.isDigitAscii c then some (c.toNat + 4)
  else if c = '+' then some 62
  else if c = '/' then some 63
  else none

def encode : Bytes → List Char
  | [] => []
  | [a] => [sign (a.toNat / 4), sign (a.toNat % 4 * 16), '=', '=']
  | [a, b] =>
    [sign (a.toNat / 4), sign (a.toNat % 4 * 16 + b.toNat / 16), sign (b.toNat % 16 * 4), '=']
  | a :: b :: c :: r =>
    sign (a.toNat / 4) :: sign (a.toNat % 4 * 16 + b.toNat / 16) ::
      sign (b.toNat % 16 * 4 + c.toNat / 64) :: sign (c.toNat % 64) :: encode r

/-- Groups of four signs; the last one may be padded, or be followed by padding alone. -/
def decode : List Char → Option Bytes
  | [] => some []
  | [a, b, '=', '='] => do
    let x ← value? a
    let y ← value? b
    some [UInt8.ofNat (4 * x + y / 16)]
  | [a, b, c, '='] => do
    let x ← value? a
    let y ← value? b
    let z ← value? c
    some [UInt8.ofNat (4 * x + y / 16), UInt8.ofNat (y % 16 * 16 + z / 4)]
  | a :: b :: c :: d :: r => do
    let x ← value? a
    let y ← value? b
    let z ← value? c
    let w ← value? d
    let rest ← if r.all (· = '=') then some [] else decode r
    some (UInt8.ofNat (4 * x + y / 16) :: UInt8.ofNat (y % 16 * 16 + z / 4) ::
      UInt8.ofNat (z % 4 * 64 + w) :: rest)
  | _ => none

/-- `encode` on octets, as a string. -/
def text (b : Bytes) : String := String.ofList (encode b)

end Wireform.Base64
