import Wireform.Bytes

/-
  Wireform text: UTF-8. `decode?` accepts exactly the shortest forms of characters; `decodeLoosely`
  puts a replacement character for each maximal part of a character that cannot be completed.
-/

namespace Wireform.Utf8

/-- The octets of one character. -/
def encodeChar (c : Char) : Bytes :=
  let n := c.toNat
  if n < 0x80 then [UInt8.ofNat n]
  else if n < 0x800 then [UInt8.ofNat (0xc0 + n / 64), UInt8.ofNat (0x80 + n % 64)]
  else if n < 0x10000 then
    [UInt8.ofNat (0xe0 + n / 4096), UInt8.ofNat (0x80 + n / 64 % 64), UInt8.ofNat (0x80 + n % 64)]
  else [UInt8.ofNat (0xf0 + n / 262144), UInt8.ofNat (0x80 + n / 4096 % 64),
    UInt8.ofNat (0x80 + n / 64 % 64), UInt8.ofNat (0x80 + n % 64)]

def encode (s : List Char) : Bytes := s.flatMap encodeChar

/-- `encode` on strings. -/
def ofString (s : String) : Bytes := encode s.toList

/-- How many octets follow a first octet, the bits it gives, and the range of the second octet. -/
def lead? (b : Nat) : Option (Nat × Nat × Nat × Nat) :=
  if b < 0x80 then some (0, b, 0, 0)
  else if 0xc2 ≤ b && b < 0xe0 then some (1, b - 0xc0, 0x80, 0xbf)
  else if b = 0xe0 then some (2, 0, 0xa0, 0xbf)
  else if b = 0xed then some (2, 0xd, 0x80, 0x9f)
  else if 0xe0 < b && b < 0xf0 then some (2, b - 0xe0, 0x80, 0xbf)
  else if b = 0xf0 then some (3, 0, 0x90, 0xbf)
  else if b = 0xf4 then some (3, 4, 0x80, 0x8f)
  else if 0xf0 < b && b < 0xf4 then some (3, b - 0xf0, 0x80, 0xbf)
  else none

/-- Reads `k` further octets, the first of them between `lo` and `hi`; gives the code point or
nothing, and the octets left. -/
def continuation : Nat → Nat → Nat → Nat → Bytes → Option Nat × Bytes
  | 0, n, _, _, r => (some n, r)
  | _ + 1, _, _, _, [] => (none, [])
  | k + 1, n, lo, hi, b :: r =>
    if lo ≤ b.toNat && b.toNat ≤ hi then continuation k (64 * n + (b.toNat - 0x80)) 0x80 0xbf r
    else (none, b :: r)

theorem length_continuation_le (k n lo hi : Nat) (b : Bytes) :
    (continuation k n lo hi b).2.length ≤ b.length := by
  fun_induction continuation k n lo hi b with
  | case1 => simp
  | case2 => simp
  | case3 k n lo hi b r h ih => simp only [List.length_cons]; omega
  | case4 => simp

/-- The first character, or nothing where none can be read, and the octets left. -/
def step (b : UInt8) (r : Bytes) : Option Char × Bytes :=
  match lead? b.toNat with
  | none => (none, r)
  | some (k, n, lo, hi) =>
    ((continuation k n lo hi r).1.map Char.ofNat, (continuation k n lo hi r).2)

theorem length_step_le (b : UInt8) (r : Bytes) : (step b r).2.length ≤ r.length := by
  unfold step
  split
  · simp
  · exact length_continuation_le _ _ _ _ r

/-- The text, one entry for each character or broken part. -/
def scan : Bytes → List (Option Char)
  | [] => []
  | b :: r => (step b r).1 :: scan (step b r).2
termination_by b => b.length
decreasing_by have := length_step_le b r; simp only [List.length_cons]; omega

/-- The text of well-formed octets. -/
def decode? (b : Bytes) : Option (List Char) := (scan b).mapM id

/-- The text with a replacement character for each broken part. -/
def decodeLoosely (b : Bytes) : List Char := (scan b).map (·.getD '\uFFFD')

/-- `decode?` on strings. -/
def toString? (b : Bytes) : Option String := (decode? b).map String.ofList

end Wireform.Utf8
