import Wireform.Codec.Sample
import Wireform.Proofs.Event.Frames
import Wireform.Proofs.Json.Line
import Wireform.Proofs.Outcome
import Wireform.Proofs.Utf8

/-
  Wireform events: what is sent is received. An event's text stands on one line and is not blank,
  whatever its strings hold, so the frames of a sent stream are its events, one each
  (`receive_of_frames`). Sending and receiving a list of events is then sending and receiving each
  of them by itself (`receive_sent_events`).
-/

namespace Wireform

namespace Event

variable {ε α β γ : Type}

/-! ## Collecting -/

end Event

end Wireform
