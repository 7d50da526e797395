import Wireform.Checksum.Padding

/-
  Wireform digests: SHA-1.
-/

namespace Wireform.Digest.Sha1

/-- The five words that are carried from block to block. -/
structure State where
  a : UInt32
  b : UInt32
  c : UInt32
  d : UInt32
  e : UInt32

def start : State := ⟨0x67452301, 0xefcdab89, 0x98badcfe, 0x10325476, 0xc3d2e1f0⟩

/-- The words of all eighty rounds; `recent` holds the last sixteen, the newest first. -/
def expand : Nat → List UInt32 → List UInt32
  | 0, _ => []
  | n + 1, recent =>
    let w := rotateLeft (recent.getD 2 0 ^^^ recent.getD 7 0 ^^^ recent.getD 13 0 ^^^
      recent.getD 15 0) 1
    w :: expand n (w :: recent.take 15)

def schedule (block : Bytes) : List UInt32 :=
  let ws := blockWords block
  ws ++ expand 64 ws.reverse

/-- The mixing function and the constant of a round. -/
def mix (round : Nat) (s : State) : UInt32 × UInt32 :=
  if round < 20 then ((s.b &&& s.c) ||| (~~~s.b &&& s.d), 0x5a827999)
  else if round < 40 then (s.b ^^^ s.c ^^^ s.d, 0x6ed9eba1)
  else if round < 60 then ((s.b &&& s.c) ||| (s.b &&& s.d) ||| (s.c &&& s.d), 0x8f1bbcdc)
  else (s.b ^^^ s.c ^^^ s.d, 0xca62c1d6)

def step (s : State) (w : UInt32 × Nat) : State :=
  let (f, k) := mix w.2 s
  ⟨rotateLeft s.a 5 + f + s.e + k + w.1, s.a, rotateLeft s.b 30, s.c, s.d⟩

def compress (s : State) (block : Bytes) : State :=
  let t := (schedule block).zipIdx.foldl step s
  ⟨s.a + t.a, s.b + t.b, s.c + t.c, s.d + t.d, s.e + t.e⟩

def digest (message : Bytes) : Bytes :=
  let s := (messageBlocks message).foldl compress start
  wordOctets [s.a, s.b, s.c, s.d, s.e]

end Wireform.Digest.Sha1
