import Wireform.Body.Basic
import Wireform.Checksum.Algorithm

/-
  Wireform chunk framing: every chunk stands behind its length in hexadecimal digits, and a trailer
  with the checksum of all of them comes after a chunk of no octets.
-/

namespace Wireform.Chunked

def lineBreak : Bytes := [13, 10]

/-- A chunk in its frame. -/
def frame (chunk : Bytes) : Bytes :=
  Bytes.ofAscii (Nat.toDigits 16 chunk.length) ++ lineBreak ++ chunk ++ lineBreak

/-- The last frame, which names the checksum. -/
def trailer (a : Algorithm) (digest : Bytes) : Bytes :=
  Bytes.byte '0' :: lineBreak ++
    Bytes.ofAscii (a.headerName.toList ++ ':' :: Base64.encode digest) ++ lineBreak ++ lineBreak

/-- The frames of a stream; empty chunks have none, and a stream that fails has no trailer. -/
def encode (a : Algorithm) (d : Drain StreamFault Bytes) : Drain StreamFault Bytes :=
  let chunks := d.items.filter fun c => !c.isEmpty
  let frames := chunks.map frame
  match d.failure with
  | some e => ⟨frames, some e⟩
  | none =>
    let checksum := chunks.foldl (fun c x => c.update x) (Checksum.new a)
    ⟨frames ++ [trailer a checksum.digest], none⟩

/-- The framing of a body. -/
def body (a : Algorithm) (inner : Body Source) : Body Source :=
  .ofStream (.ofDrain (encode a inner.drain.1)) none

end Wireform.Chunked
