import Wireform.Value.Display

/-
  Wireform bodies: octets in memory, which can be read any number of times, or a stream of chunks
  with one owner. Taking a body moves its content out and leaves an empty one behind.
-/

namespace Wireform

/-- Why a stream ends before it is complete. -/
inductive StreamFault where
  | consumed
  | mismatch (expected actual : Bytes)
  | unwritable (e : WriteError)
  deriving DecidableEq, Repr

def StreamFault.message : StreamFault → String
  | consumed => "streaming body has already been consumed"
  | mismatch expected actual => "body checksum mismatch. expected " ++ Base64.text expected ++
      " but got " ++ Base64.text actual
  | unwritable e => e.message

/-- What comes out of a stream that is read to its end: items in order, and how it failed if it
did. -/
structure Drain (ε α : Type) where
  items : List α
  failure : Option ε
  deriving Repr

/-- A stream that delivers chunks. One that rewinds delivers them to every reader from the start. -/
structure Source where
  chunks : List Bytes
  failure : Option StreamFault
  rewinds : Bool
  deriving Repr

namespace Source

def drain (s : Source) : Drain StreamFault Bytes := ⟨s.chunks, s.failure⟩

/-- What is left when a reader has come to the end. -/
def afterDrain (s : Source) : Source := if s.rewinds then s else ⟨[], none, false⟩

/-- A stream that delivers what is drained from elsewhere, once. -/
def ofDrain (d : Drain StreamFault Bytes) : Source := ⟨d.items, d.failure, false⟩

def empty : Source := ⟨[], none, true⟩

end Source

/-- Octets, or a handle of a stream. -/
inductive Content (σ : Type) where
  | memory (octets : Bytes)
  | stream (source : σ)
  deriving Repr

/-- A body over handles of streams. -/
structure Body (σ : Type) where
  content : Content σ
  contentLength : Option Int
  consumed : Bool
  taken : Bool
  deriving Repr

namespace Body

variable {σ : Type}

def ofBytes (b : Bytes) : Body σ := ⟨.memory b, some b.length, false, false⟩

def ofStream (s : σ) (length : Option Int) : Body σ := ⟨.stream s, length, false, false⟩

/-- What is left where a body has been taken. -/
def emptied : Body σ := { (ofBytes [] : Body σ) with taken := true }

def isStreaming (b : Body σ) : Bool :=
  match b.content with
  | .memory _ => false
  | .stream _ => true

/-- The octets of a body in memory. -/
def octets? (b : Body σ) : Option Bytes :=
  match b.content with
  | .memory x => some x
  | .stream _ => none

/-- The content in a new body, and what is left of the old one. -/
def take (b : Body σ) : Body σ × Body σ :=
  let left := { b with content := .memory [], contentLength := some 0, taken := true }
  match b.content with
  | .memory x => (ofBytes x, left)
  | .stream s => (ofStream s b.contentLength, left)

/-- How messages show a body. -/
def display (b : Body σ) : String :=
  match b.content with
  | .memory x => "Body(" ++ Value.shownBytes x ++ ")"
  | .stream _ => "Body(<stream content_length=" ++
      (match b.contentLength with
        | some n => String.ofList (Whole.digits n)
        | none => "None") ++ ">)"

/-- What reading octets in memory delivers: one chunk, or none if there are no octets. -/
def memoryChunks (x : Bytes) : List Bytes := if x.isEmpty then [] else [x]

/-- Reads a body to its end, and what becomes of it. A stream is read once. -/
def drain (b : Body Source) : Drain StreamFault Bytes × Body Source :=
  match b.content with
  | .memory x => (⟨memoryChunks x, none⟩, b)
  | .stream s =>
    if b.consumed then (⟨[], some .consumed⟩, b)
    else (s.drain, { b with content := .stream s.afterDrain, consumed := true })

/-- The octets that reading delivers, if it does not fail. -/
def read (b : Body Source) : Except StreamFault Bytes :=
  match (b.drain).1 with
  | ⟨chunks, none⟩ => .ok chunks.flatten
  | ⟨_, some e⟩ => .error e

end Body

end Wireform
