import Mathlib.Data.List.Basic
import Wireform.Codec.Event
import Wireform.Proofs.Body.Reading
import Wireform.Proofs.Bytes

/-
  Wireform events: what comes of a stream depends on its octets, and not on where they are cut into
  chunks. After any chunks a receiver stands where the octets so far put it (`Receiver.after`), so
  the end finds it having handed over the frames of the whole stream that are not blank, one after
  the other, up to the first that fails (`intake_of_same_octets`).
-/

namespace Wireform.Event

variable {ε α : Type}

/-! ## Between chunks -/

/-- Where the octets of a stream put a receiver. -/
def Receiver.after (read : FrameReader ε α) (octets : Bytes) : Receiver ε α :=
  let pieces := Bytes.pieces lineBreak octets
  ⟨pieces.getLastD [], pieces.dropLast.foldl (Intake.hand read) .start⟩

/-- A chunk takes a receiver from the octets before it to the octets with it. -/
theorem take_after (read : FrameReader ε α) (octets chunk : Bytes) :
    (Receiver.after read octets).take read chunk = Receiver.after read (octets ++ chunk) := by
  have hne := Bytes.pieces_ne_nil lineBreak
    ((Bytes.pieces lineBreak octets).getLastD [] ++ chunk)
  unfold Receiver.after Receiver.take
  dsimp only
  rw [Bytes.pieces_append lineBreak octets chunk]
  generalize (Bytes.pieces lineBreak octets).dropLast = before
  generalize Bytes.pieces lineBreak (_ ++ chunk) = behind at hne
  rw [List.dropLast_append_of_ne_nil hne, List.foldl_append]
  obtain ⟨first, last, rfl⟩ := (List.eq_nil_or_concat' behind).resolve_left hne
  simp

theorem foldl_take_after (read : FrameReader ε α) (chunks : List Bytes) (octets : Bytes) :
    chunks.foldl (Receiver.take read) (.after read octets) =
      .after read (octets ++ chunks.flatten) := by
  induction chunks generalizing octets with
  | nil => simp
  | cons c chunks ih =>
    rw [List.foldl_cons, take_after, ih]
    simp

theorem foldl_take_start (read : FrameReader ε α) (chunks : List Bytes) :
    chunks.foldl (Receiver.take read) .start = .after read chunks.flatten :=
  foldl_take_after read chunks []

/-- The end of a stream hands over what is behind the last line break. -/
theorem finish_after (read : FrameReader ε α) (octets : Bytes) :
    (Receiver.after read octets).finish read none =
      (Bytes.pieces lineBreak octets).foldl (Intake.hand read) .start := by
  have hne := Bytes.pieces_ne_nil lineBreak octets
  unfold Receiver.after Receiver.finish
  generalize Bytes.pieces lineBreak octets = pieces at hne
  obtain ⟨first, last, rfl⟩ := (List.eq_nil_or_concat' pieces).resolve_left hne
  simp

/-- What comes of a stream that does not fail. -/
theorem intake_eq (fault : StreamFault → ε) (read : FrameReader ε α) (chunks : List Bytes) :
    intake fault read ⟨chunks, none⟩ =
      (Bytes.pieces lineBreak chunks.flatten).foldl (Intake.hand read) .start := by
  unfold intake
  dsimp only
  rw [foldl_take_start]
  exact finish_after read chunks.flatten

/-! ## Frames handed over -/

/-- The frames handed over were read one after the other, each given those before it. All gave an
event, but that the last one may have failed. -/
inductive Reads (read : FrameReader ε α) : Intake ε α → Prop where
  | start : Reads read .start
  | event {frames : List Bytes} {events : List α} {frame : Bytes} {x : α} :
      Reads read ⟨frames, events, none⟩ → read frames frame = .ok x →
      Reads read ⟨frames ++ [frame], events ++ [x], none⟩
  | fault {frames : List Bytes} {events : List α} {frame : Bytes} {e : ε} :
      Reads read ⟨frames, events, none⟩ → read frames frame = .error e →
      Reads read ⟨frames ++ [frame], events, some e⟩

theorem hand_of_failed (read : FrameReader ε α) (frames : List Bytes) (events : List α) (e : ε)
    (frame : Bytes) :
    (Intake.mk frames events (some e)).hand read frame = ⟨frames, events, some e⟩ := by
  simp [Intake.hand]

theorem hand_of_blank {read : FrameReader ε α} (t : Intake ε α) {frame : Bytes}
    (h : isEvent frame = false) : t.hand read frame = t := by
  simp [Intake.hand, h]

theorem hand_of_isEvent {read : FrameReader ε α} {frames : List Bytes} {events : List α}
    {frame : Bytes} (h : isEvent frame = true) :
    (Intake.mk frames events none).hand read frame =
      match read frames frame with
      | .ok x => ⟨frames ++ [frame], events ++ [x], none⟩
      | .error e => ⟨frames ++ [frame], events, some e⟩ := by
  unfold Intake.hand
  rw [h]
  rfl

theorem Reads.hand {read : FrameReader ε α} {t : Intake ε α} (h : Reads read t) (frame : Bytes) :
    Reads read (t.hand read frame) := by
  obtain ⟨frames, events, failure⟩ := t
  cases failure with
  | some e =>
    rw [hand_of_failed]
    exact h
  | none =>
    cases hframe : isEvent frame with
    | false =>
      rw [hand_of_blank _ hframe]
      exact h
    | true =>
      rw [hand_of_isEvent hframe]
      cases hread : read frames frame with
      | ok x => exact .event h hread
      | error e => exact .fault h hread

theorem Reads.foldl_hand {read : FrameReader ε α} {t : Intake ε α} (h : Reads read t)
    (frames : List Bytes) : Reads read (frames.foldl (Intake.hand read) t) := by
  induction frames generalizing t with
  | nil => exact h
  | cons f frames ih => exact ih (h.hand f)

theorem foldl_hand_of_failed (read : FrameReader ε α) (handed : List Bytes) (events : List α)
    (e : ε) (frames : List Bytes) :
    frames.foldl (Intake.hand read) ⟨handed, events, some e⟩ = ⟨handed, events, some e⟩ := by
  induction frames with
  | nil => rfl
  | cons f frames ih => rw [List.foldl_cons, hand_of_failed, ih]

/-- The frames that are not blank are handed over in order, all of them unless one fails. -/
theorem handed_foldl_hand (read : FrameReader ε α) (frames : List Bytes) (t : Intake ε α) :
    ∃ rest, (frames.foldl (Intake.hand read) t).handed ++ rest = t.handed ++ frames.filter isEvent ∧
      ((frames.foldl (Intake.hand read) t).failure = none → rest = []) := by
  induction frames generalizing t with
  | nil => exact ⟨[], rfl, fun _ => rfl⟩
  | cons f frames ih =>
    rw [List.foldl_cons]
    cases hf : isEvent f with
    | false =>
      rw [hand_of_blank t hf, List.filter_cons_of_neg (by simp [hf])]
      exact ih t
    | true =>
      rw [List.filter_cons_of_pos hf]
      obtain ⟨handed, events, failure⟩ := t
      cases failure with
      | some e =>
        rw [hand_of_failed, foldl_hand_of_failed]
        exact ⟨_, rfl, nofun⟩
      | none =>
        rw [hand_of_isEvent hf]
        cases hread : read handed f with
        | ok x => simpa using ih ⟨handed ++ [f], events ++ [x], none⟩
        | error e =>
          dsimp only
          rw [foldl_hand_of_failed]
          exact ⟨frames.filter isEvent, by simp, nofun⟩

/-- However the octets of a body are cut into chunks, the same comes of them: the frames between
line breaks that are not blank are read in order, all of them or up to one that fails. -/
theorem intake_of_same_octets (fault : StreamFault → ε) (read : FrameReader ε α)
    {b b' : Body Source} (h : b.Unread) (h' : b'.Unread)
    (hsame : b'.chunks.flatten = b.chunks.flatten) :
    intake fault read b'.drain.1 = intake fault read b.drain.1 ∧
      Reads read (intake fault read b.drain.1) ∧
      ∃ rest, (intake fault read b.drain.1).handed ++ rest =
          (Bytes.pieces lineBreak b.chunks.flatten).filter isEvent ∧
        ((intake fault read b.drain.1).failure = none → rest = []) := by
  rw [Body.drain_of_unread h, Body.drain_of_unread h', intake_eq, intake_eq, hsame]
  exact ⟨rfl, Reads.start.foldl_hand _, handed_foldl_hand read _ .start⟩

/-- A line break between chunks, a blank frame, a frame across chunks and one that fails. -/
theorem intake_across_cuts :
    let chunks : List Bytes := [[97], [10, 32], [], [10, 98], [98, 10, 99]]
    let read : FrameReader Nat Bytes := fun before frame =>
      if frame = [98, 98] then .error before.length else .ok frame
    let b : Body Source := .ofStream ⟨chunks, none, false⟩ none
    let b' : Body Source := .ofBytes chunks.flatten
    b.Unread ∧ b'.Unread ∧ b'.chunks.flatten = b.chunks.flatten ∧
      intake (fun _ => 0) read b.drain.1 = ⟨[[97], [98, 98]], [[97]], some 1⟩ ∧
      intake (fun _ => 0) read b'.drain.1 = intake (fun _ => 0) read b.drain.1 := by
  intro chunks read b b'
  have hb : b.Unread := Body.unread_ofStream chunks false none
  have hb' : b'.Unread := trivial
  have hsame : b'.chunks.flatten = b.chunks.flatten := by decide
  exact ⟨hb, hb', hsame, by rfl, (intake_of_same_octets _ read hb hb' hsame).1⟩

end Wireform.Event
