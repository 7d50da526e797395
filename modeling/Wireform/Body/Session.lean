import Wireform.Body.Pool

/-
  Wireform body sessions: programs that make bodies over shared streams, wrap them in byte streams,
  take them, read them and ask readers for chunks, one step after the other.
-/

namespace Wireform

/-- A body, or a byte stream around one, by its number. -/
inductive Handle where
  | body (i : Nat)
  | stream (i : Nat)
  deriving DecidableEq, Repr

/-- The bodies, the byte streams, each with the number of its body, and the readers. -/
structure Session where
  pool : Pool
  streams : List Nat
  readers : List Reader
  deriving Repr

namespace Session

/-- What a program does next. Octets, a stream and what is left of a taken body are made into a new
body; a byte stream acts by its body, so its content is taken and read as that of any body. -/
inductive Step where
  | bytes (octets : Bytes)
  | stream (source : Nat) (length : Option Int)
  | emptied
  | wrap (body : Nat)
  | take (h : Handle)
  | read (h : Handle)
  | iterate (h : Handle)
  | next (reader : Nat)
  deriving DecidableEq, Repr

/-- What a step gives: the number of what it made, all octets of a body, or the next chunk of a
reader. -/
inductive Answer where
  | made (number : Nat)
  | octets (r : Except StreamFault Bytes)
  | chunk (r : Except StreamFault (Option Bytes))

/-- No bodies yet over some streams. -/
def start (sources : List Source) : Session := ⟨⟨sources, []⟩, [], []⟩

/-- The number of the body that a handle acts by; an unknown byte stream has an unknown body. -/
def bodyOf (s : Session) : Handle → Nat
  | .body i => i
  | .stream i => (s.streams[i]?).getD s.pool.bodies.length

/-- The reader with a number; an unknown one is past its end. -/
def reader (s : Session) (k : Nat) : Reader := (s.readers[k]?).getD .done

def withBody (s : Session) (p : Nat × Pool) : Answer × Session :=
  (.made p.1, { s with pool := p.2 })

def step (s : Session) : Step → Answer × Session
  | .bytes b => s.withBody (s.pool.addBytes b)
  | .stream source length => s.withBody (s.pool.addBody (.ofStream source length))
  | .emptied => s.withBody (s.pool.addBody .emptied)
  | .wrap i => (.made s.streams.length, { s with streams := s.streams ++ [i] })
  | .take h => s.withBody (s.pool.take (s.bodyOf h))
  | .read h =>
    (.octets (s.pool.read (s.bodyOf h)).1, { s with pool := (s.pool.read (s.bodyOf h)).2 })
  | .iterate h =>
    (.made s.readers.length, { s with readers := s.readers ++ [.fresh (s.bodyOf h)] })
  | .next k =>
    let (r, reader, pool) := s.pool.next (s.reader k)
    (.chunk r, { s with pool := pool, readers := s.readers.set k reader })

/-- The session after some steps. -/
def run (s : Session) (steps : List Step) : Session := steps.foldl (fun s x => (s.step x).2) s

end Session

end Wireform
