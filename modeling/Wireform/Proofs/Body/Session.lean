import Wireform.Body.Session
import Wireform.Proofs.Body.Pool
import Wireform.Proofs.Body.Reading

/-
  Wireform body sessions: what one step does to every body and to every reader, and what a run of
  steps keeps. Each body after a step is one from before, altered as the pool's operations alter
  bodies (`Pool.Altered`), or the one that the step has made (`Made`).
-/

namespace Wireform.Session
open Pool (Altered)

variable {s : Session}

/-! ## Bodies -/

/-- What a step makes. -/
inductive Made (s : Session) : Step → Body Nat → Prop where
  | bytes (octets : Bytes) : Made s (.bytes octets) (.ofBytes octets)
  | stream (source : Nat) (length : Option Int) :
      Made s (.stream source length) (.ofStream source length)
  | emptied : Made s .emptied .emptied
  | moved (h : Handle) : Made s (.take h) (s.pool.body (s.bodyOf h)).take.1

/-- A body after a step was there before, or is the one that the step has made. -/
theorem body_step (x : Step) (j : Nat) :
    Altered (s.pool.body j) ((s.step x).2.pool.body j) ∨
      (j = s.pool.bodies.length ∧ Made s x ((s.step x).2.pool.body j)) := by
  -- A step that only adds a body leaves the others alone.
  have hadd : ∀ b, Made s x b → Altered (s.pool.body j) ((s.pool.addBody b).2.body j) ∨
      (j = s.pool.bodies.length ∧ Made s x ((s.pool.addBody b).2.body j)) := by
    intro b hb
    obtain hsame | ⟨hj, hnew⟩ := Pool.body_addBody (p := s.pool) b j
    · rw [hsame]
      exact .inl .unchanged
    · rw [hnew]
      exact .inr ⟨hj, hb⟩
  cases x with
  | bytes octets => exact hadd _ (.bytes octets)
  | stream source length => exact hadd _ (.stream source length)
  | emptied => exact hadd _ .emptied
  | wrap i => exact .inl .unchanged
  | take h =>
    show Altered (s.pool.body j) ((s.pool.take (s.bodyOf h)).2.body j) ∨
      (_ ∧ Made s _ ((s.pool.take (s.bodyOf h)).2.body j))
    obtain hsame | ⟨rfl, hleft⟩ | ⟨hj, hnew⟩ := Pool.body_take (p := s.pool) (s.bodyOf h) j
    · rw [hsame]
      exact .inl .unchanged
    · rw [hleft]
      exact .inl .taken
    · rw [hnew]
      exact .inr ⟨hj, .moved h⟩
  | read h => exact .inl (Pool.altered_read _ j)
  | iterate h => exact .inl .unchanged
  | next k => exact .inl (Pool.altered_next _ j)

theorem altered_step (x : Step) {j : Nat} (hj : j < s.pool.bodies.length) :
    Altered (s.pool.body j) ((s.step x).2.pool.body j) :=
  (body_step x j).resolve_right fun h => Nat.ne_of_lt hj h.1

theorem length_bodies_le_step (x : Step) :
    s.pool.bodies.length ≤ (s.step x).2.pool.bodies.length := by
  have hadd : ∀ b, s.pool.bodies.length ≤ (s.pool.addBody b).2.bodies.length := by
    intro b
    rw [Pool.length_bodies_addBody]
    omega
  cases x with
  | bytes octets => exact hadd _
  | stream source length => exact hadd _
  | emptied => exact hadd _
  | wrap i => exact Nat.le_refl _
  | take h =>
    show _ ≤ (s.pool.take (s.bodyOf h)).2.bodies.length
    rw [Pool.length_bodies_take]
    omega
  | read h => exact Nat.le_of_eq (Pool.length_bodies_read _).symm
  | iterate h => exact Nat.le_refl _
  | next k => exact Nat.le_of_eq (Pool.length_bodies_next _).symm

/-- What no operation undoes holds of a body after any steps. -/
theorem body_run {P : Body Nat → Prop} (hkeep : ∀ b b', Altered b b' → P b → P b') {j : Nat}
    (hj : j < s.pool.bodies.length) (h : P (s.pool.body j)) (steps : List Step) :
    P ((s.run steps).pool.body j) := by
  induction steps generalizing s with
  | nil => exact h
  | cons x steps ih =>
    exact ih (Nat.lt_of_lt_of_le hj (length_bodies_le_step x)) (hkeep _ _ (altered_step x hj) h)

theorem length_bodies_le_run (steps : List Step) :
    s.pool.bodies.length ≤ (s.run steps).pool.bodies.length := by
  induction steps generalizing s with
  | nil => exact Nat.le_refl _
  | cons x steps ih => exact Nat.le_trans (length_bodies_le_step x) ih

/-! ## Readers -/

theorem step_next (k : Nat) :
    s.step (.next k) = (.chunk (s.pool.next (s.reader k)).1,
      { s with
        pool := (s.pool.next (s.reader k)).2.2
        readers := s.readers.set k (s.pool.next (s.reader k)).2.1 }) := rfl

theorem lt_of_fresh {k i : Nat} (h : s.reader k = .fresh i) : k < s.readers.length := by
  apply Nat.lt_of_not_le
  intro hle
  simp [reader, List.getElem?_eq_none hle] at h

/-- A reader that is asked for a chunk goes on as the pool says. -/
theorem reader_step_next {k : Nat} (hk : k < s.readers.length) :
    (s.step (.next k)).2.reader k = (s.pool.next (s.reader k)).2.1 := by
  rw [step_next]
  simp [reader, hk]

theorem reader_step_of_ne {x : Step} {k : Nat} (hk : k < s.readers.length) (h : x ≠ .next k) :
    (s.step x).2.reader k = s.reader k := by
  cases x with
  | iterate h => simp [step, reader, List.getElem?_append_left hk]
  | next k' =>
    have hne : k' ≠ k := fun heq => h (by rw [heq])
    rw [step_next]
    simp [reader, List.getElem?_set_ne hne]
  | bytes | stream | emptied | wrap | take | read => rfl

/-- A reader is left as it is, or has just been made, or has been asked. -/
theorem reader_step (x : Step) (k : Nat) :
    (s.step x).2.reader k = s.reader k ∨ (∃ i, (s.step x).2.reader k = .fresh i) ∨
      (s.step x).2.reader k = (s.pool.next (s.reader k)).2.1 := by
  cases x with
  | iterate h =>
    obtain hsame | ⟨-, hnew⟩ := Pool.getD_concat s.readers (.fresh (s.bodyOf h)) .done k
    · exact .inl hsame
    · exact .inr (.inl ⟨s.bodyOf h, hnew⟩)
  | next k' =>
    by_cases hk : k < s.readers.length
    · by_cases heq : k' = k
      · subst heq
        exact .inr (.inr (reader_step_next hk))
      · exact .inl (reader_step_of_ne hk fun h => heq (by cases h; rfl))
    · have hnone : s.readers[k]? = none := List.getElem?_eq_none (Nat.le_of_not_lt hk)
      have hnone' : (s.readers.set k' (s.pool.next (s.reader k')).2.1)[k]? = none :=
        List.getElem?_eq_none (by simpa using Nat.le_of_not_lt hk)
      left
      rw [step_next]
      show ((s.readers.set k' (s.pool.next (s.reader k')).2.1)[k]?).getD Reader.done =
        (s.readers[k]?).getD Reader.done
      rw [hnone, hnone']
  | bytes | stream | emptied | wrap | take | read => exact .inl rfl

theorem length_readers_le_step (x : Step) : s.readers.length ≤ (s.step x).2.readers.length := by
  cases x with
  | iterate h => simp [step]
  | next k =>
    rw [step_next]
    simp
  | bytes | stream | emptied | wrap | take | read => exact Nat.le_refl _

end Wireform.Session
