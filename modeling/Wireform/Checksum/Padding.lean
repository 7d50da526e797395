import Wireform.Bytes

/-
  Wireform digests: how a message is padded to blocks of 64 octets, and the 32-bit words of a block.
-/

namespace Wireform.Digest

/-- The message, a single bit, zeros, and the length of the message in bits. -/
def pad (message : Bytes) : Bytes :=
  let zeros := (119 - message.length % 64) % 64
  message ++ 0x80 :: List.replicate zeros 0 ++ Bytes.ofNat 8 (8 * message.length)

/-- Runs of `n` octets. -/
def blocks (n : Nat) : Nat → Bytes → List Bytes
  | 0, _ => []
  | k + 1, s => s.take n :: blocks n k (s.drop n)

/-- The blocks of a padded message. -/
def messageBlocks (message : Bytes) : List Bytes :=
  let s := pad message
  blocks 64 (s.length / 64) s

/-- The word of four octets, the first one highest. -/
def word (b : Bytes) : UInt32 := UInt32.ofNat (Bytes.toNat b)

/-- The sixteen words of a block. -/
def blockWords (b : Bytes) : List UInt32 := (blocks 4 16 b).map word

/-- The octets of words. -/
def wordOctets (ws : List UInt32) : Bytes := ws.flatMap fun w => Bytes.ofNat 4 w.toNat

def rotateLeft (w n : UInt32) : UInt32 := (w <<< n) ||| (w >>> (32 - n))

def rotateRight (w n : UInt32) : UInt32 := (w >>> n) ||| (w <<< (32 - n))

end Wireform.Digest
