import Wireform.Codec.Decode
import Wireform.Codec.Encode

/-
  Wireform events: each event stands in a frame that a line break ends. Frames may lie across the
  chunks of a body; blank ones hold no event.
-/

namespace Wireform.Event

variable {ε α β : Type}

def lineBreak : UInt8 := 10

/-- Whether a frame holds an event. -/
def isEvent (frame : Bytes) : Bool := !frame.all Bytes.isBlank

/-! ## Receiving -/

/-- How a frame is read, given the frames that were read before it. -/
abbrev FrameReader (ε α : Type) := List Bytes → Bytes → Except ε α

/-- What has come of a stream: the frames handed to the reader, the events they gave, and the
failure that ended it. -/
structure Intake (ε α : Type) where
  handed : List Bytes
  events : List α
  failure : Option ε

namespace Intake

def start : Intake ε α := ⟨[], [], none⟩

/-- Hands a frame to the reader, unless it is blank or an earlier one failed. -/
def hand (read : FrameReader ε α) (t : Intake ε α) (frame : Bytes) : Intake ε α :=
  if t.failure.isNone && isEvent frame then
    match read t.handed frame with
    | .ok x => ⟨t.handed ++ [frame], t.events ++ [x], none⟩
    | .error e => ⟨t.handed ++ [frame], t.events, some e⟩
  else t

end Intake

/-- A receiver between two chunks: the octets behind the last line break, and what came before. -/
structure Receiver (ε α : Type) where
  pending : Bytes
  intake : Intake ε α

namespace Receiver

def start : Receiver ε α := ⟨[], .start⟩

/-- Hands over the frames that end within a chunk. -/
def take (read : FrameReader ε α) (r : Receiver ε α) (chunk : Bytes) : Receiver ε α :=
  let pieces := Bytes.pieces lineBreak (r.pending ++ chunk)
  ⟨pieces.getLastD [], pieces.dropLast.foldl (Intake.hand read) r.intake⟩

/-- A frame that the end of the stream cuts off counts, unless the stream failed. -/
def finish (read : FrameReader ε α) (fault : Option ε) (r : Receiver ε α) : Intake ε α :=
  match fault with
  | none => r.intake.hand read r.pending
  | some e => { r.intake with failure := r.intake.failure.or (some e) }

end Receiver

/-- What comes of a stream, where `fault` tells how it failed. -/
def intake (fault : StreamFault → ε) (read : FrameReader ε α) (d : Drain StreamFault Bytes) :
    Intake ε α :=
  (d.items.foldl (Receiver.take read) .start).finish read (d.failure.map fault)

/-- The events of a stream, up to the first failure. -/
def receive (read : Bytes → Except CodecError α) (d : Drain StreamFault Bytes) :
    Drain CodecError α :=
  let t := intake .stream (fun _ => read) d
  ⟨t.events, t.failure⟩

/-! ## Sending -/

/-- The results up to the first failure. -/
def collect (f : α → Except ε β) : List α → Drain ε β
  | [] => ⟨[], none⟩
  | x :: r =>
    match f x with
    | .error e => ⟨[], some e⟩
    | .ok y => ⟨y :: (collect f r).items, (collect f r).failure⟩

/-- A body that delivers a frame for each event, as far as they can be written. -/
def send (write : α → Except WriteError String) (events : List α) : Body Source :=
  let d := collect write events
  .ofStream ⟨d.items.map fun s => Utf8.ofString s ++ [lineBreak], d.failure.map .unwritable, false⟩
    none

end Wireform.Event
