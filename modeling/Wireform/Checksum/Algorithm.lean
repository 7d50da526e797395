import Wireform.Base64
import Wireform.Checksum.Crc
import Wireform.Checksum.Sha1
import Wireform.Checksum.Sha256
import Wireform.Text.Case
import Wireform.Text.Quoted

/-
  Wireform checksums: the algorithms for payloads, and a checksum that grows with its octets.
-/

namespace Wireform

inductive Algorithm where
  | crc32
  | crc32c
  | sha1
  | sha256
  deriving DecidableEq, Repr

/-- A name that no checksum algorithm has. -/
structure UnknownAlgorithm where
  name : String
  deriving DecidableEq, Repr

def UnknownAlgorithm.message (e : UnknownAlgorithm) : String :=
  "unknown checksum algorithm " ++ Text.quoted e.name

namespace Algorithm

def name : Algorithm → String
  | crc32 => "crc32"
  | crc32c => "crc32c"
  | sha1 => "sha1"
  | sha256 => "sha256"

/-- The header that carries a checksum. -/
def headerName (a : Algorithm) : String := "x-amz-checksum-" ++ a.name

@[simp] theorem lowered_headerName (a : Algorithm) : Text.lowered a.headerName = a.headerName := by
  cases a <;> decide

/-- The algorithms, the cheapest first. -/
def byCost : List Algorithm := [crc32c, crc32, sha1, sha256]

/-- The algorithm of a name in any case. -/
def ofName (name : String) : Except UnknownAlgorithm Algorithm :=
  match byCost.find? fun a => a.name = Text.lowered name with
  | some a => .ok a
  | none => .error ⟨name⟩

end Algorithm

/-- A checksum of the octets seen so far: the value of a cyclic check, or the octets themselves for
a digest. -/
inductive Checksum where
  | crc (code : Crc.Code) (value : Nat)
  | sha1 (seen : Bytes)
  | sha256 (seen : Bytes)

namespace Checksum

def new : Algorithm → Checksum
  | .crc32 => crc .ieee 0
  | .crc32c => crc .castagnoli 0
  | .sha1 => sha1 []
  | .sha256 => sha256 []

def update (data : Bytes) : Checksum → Checksum
  | crc code value => crc code (Crc.compute code value data)
  | sha1 seen => sha1 (seen ++ data)
  | sha256 seen => sha256 (seen ++ data)

def digest : Checksum → Bytes
  | crc _ value => Bytes.ofNat 4 value
  | sha1 seen => Digest.Sha1.digest seen
  | sha256 seen => Digest.Sha256.digest seen

/-- The checksum of octets. -/
def ofBytes (a : Algorithm) (data : Bytes) : Checksum := (new a).update data

/-- The text of a checksum in a header. -/
def headerValue (a : Algorithm) (data : Bytes) : String := Base64.text (ofBytes a data).digest

end Checksum

end Wireform
