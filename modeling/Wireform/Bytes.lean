/-
  Wireform bytes: the octets a message carries, and their text in hexadecimal digits.
-/

namespace Wireform

/-- A run of octets. -/
abbrev Bytes := List UInt8

namespace Bytes

/-- The octet of a character code below 256. -/
def byte (c : Char) : UInt8 := UInt8.ofNat c.toNat

/-- The octets of a text of ASCII characters. -/
def ofAscii (s : List Char) : Bytes := s.map byte

/-- The characters with the same codes as the octets. -/
def toChars (b : Bytes) : List Char := b.map fun x => Char.ofNat x.toNat

/-- The number written by the octets, the first one highest. -/
def toNat (b : Bytes) : Nat := b.foldl (fun n x => 256 * n + x.toNat) 0

/-- The lowest `width` octets of `n`, the highest first. -/
def ofNat : Nat → Nat → Bytes
  | 0, _ => []
  | width + 1, n => ofNat width (n / 256) ++ [UInt8.ofNat (n % 256)]

/-- The pieces between the octets `c`. -/
def pieces (c : UInt8) : Bytes → List Bytes
  | [] => [[]]
  | x :: r =>
    if x = c then [] :: pieces c r
    else match pieces c r with
      | [] => [[x]]
      | p :: ps => (x :: p) :: ps

/-- White space among octets. -/
def isBlank (x : UInt8) : Bool := (0x9 ≤ x && x ≤ 0xd) || x = 0x20

/-- Whether an octet is the code of an ASCII character. -/
def isAscii (x : UInt8) : Bool := x < 0x80

/-- The octets without white space around them. -/
def trim (b : Bytes) : Bytes := ((b.dropWhile isBlank).reverse.dropWhile isBlank).reverse

end Bytes

end Wireform
