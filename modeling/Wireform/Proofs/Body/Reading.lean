import Wireform.Body.Basic

/-
  Wireform bodies: what reading a body delivers. A body that is unread delivers its chunks and comes
  to an end, and it does so as well after it was taken; what is left of it then is empty.
-/

namespace Wireform.Body

/-- The chunks that a body holds. -/
def chunks (b : Body Source) : List Bytes :=
  match b.content with
  | .memory x => memoryChunks x
  | .stream s => s.chunks

/-- Whether all chunks can still be read: octets in memory always can, a stream only once, and
unless it fails. -/
def Unread (b : Body Source) : Prop :=
  match b.content with
  | .memory _ => True
  | .stream s => b.consumed = false ∧ s.failure = none

theorem unread_ofStream (xs : List Bytes) (rewinds : Bool) (length : Option Int) :
    (ofStream ⟨xs, none, rewinds⟩ length).Unread := ⟨rfl, rfl⟩

theorem drain_of_unread {b : Body Source} (h : b.Unread) : b.drain.1 = ⟨b.chunks, none⟩ := by
  unfold Unread at h
  unfold drain chunks
  cases hc : b.content with
  | memory x => rfl
  | stream s =>
    rw [hc] at h
    dsimp only
    rw [if_neg (by rw [h.1]; exact Bool.false_ne_true)]
    show s.drain = ⟨s.chunks, none⟩
    rw [← h.2]
    rfl

/-- A stream that delivers what is drained from elsewhere is drained of just that. -/
theorem drain_ofDrain (d : Drain StreamFault Bytes) (length : Option Int) :
    (ofStream (.ofDrain d) length).drain.1 = d := rfl

theorem unread_take {b : Body Source} (h : b.Unread) : b.take.1.Unread := by
  unfold Unread at h
  unfold take
  cases hc : b.content with
  | memory x => trivial
  | stream s =>
    rw [hc] at h
    exact ⟨rfl, h.2⟩

theorem chunks_take (b : Body Source) : b.take.1.chunks = b.chunks := by
  unfold take chunks
  cases b.content with
  | memory x => rfl
  | stream s => rfl

theorem content_moved {σ : Type} (b : Body σ) : b.take.1.content = b.content := by
  unfold take
  cases h : b.content <;> rfl

theorem consumed_moved {σ : Type} (b : Body σ) : b.take.1.consumed = false := by
  unfold take
  cases h : b.content <;> rfl

theorem content_left {σ : Type} (b : Body σ) : b.take.2.content = .memory [] := by
  unfold take
  cases h : b.content <;> rfl

theorem taken_left {σ : Type} (b : Body σ) : b.take.2.taken = true := by
  unfold take
  cases h : b.content <;> rfl

/-- What is left of a body that was taken. -/
theorem take_left (b : Body Source) :
    b.take.2.taken = true ∧ b.take.2.octets? = some [] ∧ b.take.2.contentLength = some 0 := by
  unfold take
  cases b.content with
  | memory x => exact ⟨rfl, rfl, rfl⟩
  | stream s => exact ⟨rfl, rfl, rfl⟩

end Wireform.Body
