import Wireform.Json.Reader
import Wireform.Utf8

/-
  Wireform JSON octets: the coding of a document is told by its byte order mark, or else by where
  its first octets are zero. Halves of surrogate pairs are let through as replacement characters.
-/

namespace Wireform.Json

inductive Coding where
  | utf8
  | utf16 (bigEndian : Bool)
  | utf32 (bigEndian : Bool)
  deriving DecidableEq

/-- The byte order marks and their codings, a longer mark before its start. -/
def marks : List (Bytes × Coding) :=
  [([0, 0, 0xfe, 0xff], .utf32 true), ([0xff, 0xfe, 0, 0], .utf32 false),
    ([0xfe, 0xff], .utf16 true), ([0xff, 0xfe], .utf16 false), ([0xef, 0xbb, 0xbf], .utf8)]

/-- The coding of octets without a mark. -/
def guessCoding : Bytes → Coding
  | a :: b :: c :: d :: _ =>
    if a = 0 then if b ≠ 0 then .utf16 true else .utf32 true
    else if b = 0 then if c ≠ 0 || d ≠ 0 then .utf16 false else .utf32 false
    else .utf8
  | [a, b] => if a = 0 then .utf16 true else if b = 0 then .utf16 false else .utf8
  | _ => .utf8

/-- The coding and the octets behind the byte order mark. -/
def detectCoding (s : Bytes) : Coding × Bytes :=
  match marks.find? fun m => m.1.isPrefixOf s with
  | some (mark, coding) => (coding, s.drop mark.length)
  | none => (guessCoding s, s)

/-- The two-octet units. -/
def units16 (bigEndian : Bool) : Bytes → Option (List Nat)
  | [] => some []
  | a :: b :: r =>
    let n := if bigEndian then a.toNat * 256 + b.toNat else b.toNat * 256 + a.toNat
    (units16 bigEndian r).map (n :: ·)
  | [_] => none

/-- The characters of two-octet units. -/
def ofUnits16 : List Nat → List Char
  | [] => []
  | [a] => [unitChar a]
  | a :: b :: r =>
    if isHighUnit a && isLowUnit b then joinUnits a b :: ofUnits16 r
    else unitChar a :: ofUnits16 (b :: r)

/-- The characters of four-octet units. -/
def ofUnits32 (bigEndian : Bool) : Bytes → Option (List Char)
  | [] => some []
  | a :: b :: c :: d :: r =>
    let n := if bigEndian then Bytes.toNat [a, b, c, d] else Bytes.toNat [d, c, b, a]
    if n < 0x110000 then (ofUnits32 bigEndian r).map (unitChar n :: ·) else none
  | _ => none

/-- The characters of eight-bit units, where half of a surrogate pair may stand for itself. -/
def ofUnits8 (b : Bytes) : Option (List Char) := (Utf8.scan (replaceHalves b)).mapM id
where
  /-- Puts the replacement character in place of every written half of a pair. -/
  replaceHalves : Bytes → Bytes
    | 0xed :: y :: z :: r =>
      if 0xa0 ≤ y && y ≤ 0xbf && 0x80 ≤ z && z ≤ 0xbf then
        0xef :: 0xbf :: 0xbd :: replaceHalves r
      else 0xed :: replaceHalves (y :: z :: r)
    | x :: r => x :: replaceHalves r
    | [] => []

/-- The text of a document's octets. -/
def decodeOctets (b : Bytes) : Option (List Char) :=
  match detectCoding b with
  | (.utf8, r) => ofUnits8 r
  | (.utf16 bigEndian, r) => (units16 bigEndian r).map ofUnits16
  | (.utf32 bigEndian, r) => ofUnits32 bigEndian r

/-- The document of octets. -/
def readOctets (b : Bytes) : Except Fault Json :=
  match decodeOctets b with
  | some s => read s
  | none => .error .malformed

/-- The document of a text. -/
def ofText (s : String) : Except Fault Json := read s.toList

end Wireform.Json
