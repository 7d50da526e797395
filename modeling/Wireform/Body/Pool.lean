import Wireform.Body.Basic

/-
  Wireform body pools: bodies whose streams are shared, with readers that ask for one chunk at a
  time. A reader does nothing before it is first asked, and one that has found its stream keeps it
  when the body is taken.
-/

namespace Wireform

/-- Where a reader is: before its first chunk, within a shared stream, within chunks of its own, or
past the end. -/
inductive Reader where
  | fresh (body : Nat)
  | shared (source : Nat)
  | own (chunks : List Bytes)
  | done
  deriving Repr

/-- The streams and the bodies over them. -/
structure Pool where
  sources : List Source
  bodies : List (Body Nat)
  deriving Repr

namespace Pool

def empty : Pool := ⟨[], []⟩

/-- The body with a number; an unknown number stands for an empty body. -/
def body (p : Pool) (i : Nat) : Body Nat := (p.bodies[i]?).getD (.ofBytes [])

def source (p : Pool) (i : Nat) : Source := (p.sources[i]?).getD .empty

def setBody (p : Pool) (i : Nat) (b : Body Nat) : Pool := { p with bodies := p.bodies.set i b }

def setSource (p : Pool) (i : Nat) (s : Source) : Pool := { p with sources := p.sources.set i s }

/-- Adds a body and gives its number. -/
def addBody (p : Pool) (b : Body Nat) : Nat × Pool :=
  (p.bodies.length, { p with bodies := p.bodies ++ [b] })

def addBytes (p : Pool) (b : Bytes) : Nat × Pool := p.addBody (.ofBytes b)

/-- Moves the content of a body into a new one. -/
def take (p : Pool) (i : Nat) : Nat × Pool :=
  let (moved, left) := (p.body i).take
  (p.setBody i left).addBody moved

/-- The next chunk of a stream that its readers share. -/
def nextShared (p : Pool) (s : Nat) : Option Bytes × Reader × Pool :=
  match (p.source s).chunks with
  | [] => (none, .done, p)
  | c :: r => (some c, .shared s, p.setSource s { p.source s with chunks := r })

/-- The next chunk of a list of chunks. -/
def nextOwn (p : Pool) : List Bytes → Option Bytes × Reader × Pool
  | [] => (none, .done, p)
  | c :: r => (some c, .own r, p)

/-- The first chunk of a body. -/
def start (p : Pool) (i : Nat) : Except StreamFault (Option Bytes) × Reader × Pool :=
  let b := p.body i
  match b.content with
  | .memory x => if x.isEmpty then (.ok none, .done, p) else (.ok (some x), .done, p)
  | .stream s =>
    if b.consumed then (.error .consumed, .done, p)
    else
      let p := p.setBody i { b with consumed := true }
      let (c, r, p) := if (p.source s).rewinds then p.nextOwn (p.source s).chunks
        else p.nextShared s
      (.ok c, r, p)

/-- Asks a reader for its next chunk. -/
def next (p : Pool) : Reader → Except StreamFault (Option Bytes) × Reader × Pool
  | .fresh i => p.start i
  | .shared s => let (c, r, p) := p.nextShared s; (.ok c, r, p)
  | .own chunks => let (c, r, p) := p.nextOwn chunks; (.ok c, r, p)
  | .done => (.ok none, .done, p)

/-- All octets of a body. -/
def read (p : Pool) (i : Nat) : Except StreamFault Bytes × Pool :=
  let b := p.body i
  match b.content with
  | .memory x => (.ok x, p)
  | .stream s =>
    if b.consumed then (.error .consumed, p)
    else
      let p := p.setBody i { b with consumed := true }
      (.ok (p.source s).chunks.flatten, p.setSource s (p.source s).afterDrain)

end Pool

end Wireform
