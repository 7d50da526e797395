import Wireform.Text.Basic
import Wireform.Utf8

/-
  Wireform percent coding. `encode keep` writes the octets of every character outside the
  unreserved set and `keep` as a percent sign with two digits; `decode` reads them back and leaves
  a percent sign without two digits as it is.
-/

namespace Wireform.Percent

/-- Characters that are never encoded. -/
def isUnreserved (c : Char) : Bool :=
  Text.isAlnumAscii c || c = '_' || c = '.' || c = '-' || c = '~'

/-- The upper-case digit of a value below sixteen. -/
def hexDigit (n : Nat) : Char := if n < 10 then Char.ofNat (48 + n) else Char.ofNat (55 + n)

/-- The value of a hexadecimal digit in either case. -/
def hexValue? (c : Char) : Option Nat :=
  if Text.isDigitAscii c then some (c.toNat - 48)
  else if 'a' ≤ c && c ≤ 'f' then some (c.toNat - 87)
  else if 'A' ≤ c && c ≤ 'F' then some (c.toNat - 55)
  else none

/-- An octet as a percent sign and two digits. -/
def encodeByte (b : UInt8) : List Char := ['%', hexDigit (b.toNat / 16), hexDigit (b.toNat % 16)]

def encodeChar (keep : Char → Bool) (c : Char) : List Char :=
  if isUnreserved c || keep c then [c] else (Utf8.encodeChar c).flatMap encodeByte

def encode (keep : Char → Bool) (s : List Char) : List Char := s.flatMap (encodeChar keep)

/-- The octets that a run of ASCII characters stands for. -/
def decodeBytes : List Char → Bytes
  | [] => []
  | '%' :: a :: b :: r =>
    match hexValue? a, hexValue? b with
    | some x, some y => UInt8.ofNat (16 * x + y) :: decodeBytes r
    | _, _ => Bytes.byte '%' :: decodeBytes (a :: b :: r)
  | c :: r => Bytes.byte c :: decodeBytes r
termination_by s => s.length

/-- The text that a run of ASCII characters stands for. -/
def decodeRun (s : List Char) : List Char := Utf8.decodeLoosely (decodeBytes s)

/-- Each run of ASCII characters is decoded by itself; other characters stay. -/
def decode (s : List Char) : List Char := go [] s
where
  /-- `run` holds the ASCII characters read since the last other one, the last first. -/
  go (run : List Char) : List Char → List Char
    | [] => decodeRun run.reverse
    | c :: r => if Text.isAscii c then go (c :: run) r else decodeRun run.reverse ++ c :: go [] r

end Wireform.Percent
