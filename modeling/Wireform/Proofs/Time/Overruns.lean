import Wireform.Proofs.Outcome
import Wireform.Time.Timestamp

/-
  Wireform timestamps: the texts that are well formed and name an instant that no clock shows. They
  are the ones whose reading fails in the arithmetic, and `read_overruns` says exactly which.
-/

namespace Wireform

/-- Whether a reading fails with the arithmetic and not with the text. -/
def ReadError.Overrun {α : Type} (r : Except ReadError α) : Prop :=
  ∃ e, r = .error e ∧ e.isMalformed = false

namespace ReadError

variable {α β : Type}

theorem not_overrun_ok (a : α) : ¬ Overrun (.ok a) := by
  rintro ⟨e, h, -⟩
  cases h

theorem overrun_error {e : ReadError} :
    Overrun (.error e : Except ReadError α) ↔ e.isMalformed = false := by
  constructor
  · rintro ⟨e', h, he⟩
    cases h
    exact he
  · exact fun he => ⟨e, rfl, he⟩

theorem not_overrun_error {e : ReadError} (h : e.isMalformed = true) :
    ¬ Overrun (.error e : Except ReadError α) := by
  rw [overrun_error, h]
  exact Bool.noConfusion

theorem overrun_map {r : Except ReadError α} {f : α → β} : Overrun (r.map f) ↔ Overrun r := by
  unfold Overrun
  simp only [Outcome.map_eq_error]

end ReadError

open ReadError (Overrun not_overrun_ok overrun_error not_overrun_error)

/-! ## Seconds since the epoch -/

/-- The year of a day that the calendar has. -/
theorem Date.yearOfNumber_bounds {n : Int} (hlow : 1 ≤ n) (hhigh : n ≤ 3652059) :
    1 ≤ yearOfNumber n ∧ yearOfNumber n ≤ 10000 := by
  have hyear : ∀ k < 146097, 1 ≤ (ofCycleDay 1 k).year ∧ (ofCycleDay 1 k).year ≤ 400 := by
    intro k hk
    unfold ofCycleDay
    dsimp only
    omega
  have hmod : (Int.fmod (n - 1) 146097).toNat < 146097 := by
    rw [Int.fmod_eq_emod_of_nonneg _ (by decide)]
    omega
  have hcycle := hyear _ hmod
  unfold yearOfNumber
  rw [Int.fdiv_eq_ediv_of_nonneg _ (by decide)]
  omega

namespace Moment

/-- Whether the year of a reading is one that the system's calendar cannot hold. -/
def BeyondCalendar (reading : Int) : Prop :=
  maxSystemYear < Date.yearOfNumber (Int.fdiv reading microsPerDay + 1) ∨
    Date.yearOfNumber (Int.fdiv reading microsPerDay + 1) < maxSystemYear - 4294967295

theorem not_beyondCalendar {r : Int} (hlow : 0 ≤ r) (hhigh : r < limit) : ¬ BeyondCalendar r := by
  have hdays := @Date.yearOfNumber_bounds (Int.fdiv r microsPerDay + 1)
  unfold limit at hhigh
  unfold BeyondCalendar maxSystemYear
  unfold microsPerDay microsPerSecond at *
  rw [Int.fdiv_eq_ediv_of_nonneg _ (by decide)] at *
  omega

theorem ofEpoch_overruns (seconds micros : Int) : Overrun (ofEpoch seconds micros) ↔
    BeyondCalendar (epoch + seconds * microsPerSecond + micros) := by
  unfold ofEpoch
  dsimp only
  split
  · next h =>
    rw [Bool.and_eq_true, decide_eq_true_eq, decide_eq_true_eq] at h
    exact iff_of_false (not_overrun_ok _) (not_beyondCalendar h.1 h.2)
  · split
    · next h =>
      rw [Bool.or_eq_true, decide_eq_true_eq, decide_eq_true_eq] at h
      exact iff_of_true (overrun_error.mpr rfl) h
    · next h =>
      rw [Bool.or_eq_true, decide_eq_true_eq, decide_eq_true_eq] at h
      exact iff_of_false (not_overrun_error rfl) h

/-- A number of seconds or microseconds with the sign of its instant. -/
def signed (negative : Bool) (n : Nat) : Int := if negative then -(n : Int) else n

/-- Whether no clock can be set to so many seconds and microseconds since the epoch. -/
def BeyondClock (seconds micros : Int) : Prop :=
  seconds < -maxSecond - 1 ∨ maxSecond < seconds ∨
    BeyondCalendar (epoch + seconds * microsPerSecond + micros)

/-- Whether no clock can be set to so many seconds since the epoch. -/
def Overruns : Double → Prop
  | .nan => False
  | .infinite _ => True
  | .finite negative m q =>
    BeyondClock (signed negative ((Double.ratio m q).1 / (Double.ratio m q).2))
      (signed negative
        (fractionMicros ((Double.ratio m q).1 % (Double.ratio m q).2) (Double.ratio m q).2))

theorem setClock_overruns (seconds micros : Int) :
    Overrun (if seconds < -maxSecond - 1 ∨ maxSecond < seconds then .error .instantOutOfRange
      else ofEpoch seconds micros) ↔ BeyondClock seconds micros := by
  unfold BeyondClock
  split
  · next h => exact iff_of_true (overrun_error.mpr rfl) (h.elim Or.inl (Or.inr ∘ Or.inl))
  · next h =>
    rw [ofEpoch_overruns]
    exact ⟨fun hb => Or.inr (Or.inr hb), fun hb => hb.elim (fun hl => absurd (Or.inl hl) h)
      (Or.elim · (fun hg => absurd (Or.inr hg) h) id)⟩

theorem ofWholeSeconds_overruns (n : Int) : Overrun (ofWholeSeconds n) ↔ BeyondClock n 0 := by
  unfold ofWholeSeconds
  simp only [Bool.or_eq_true, decide_eq_true_eq]
  exact setClock_overruns n 0

theorem ofSeconds_finite (negative : Bool) (m : Nat) (q : Int) :
    ofSeconds (.finite negative m q) =
      let seconds := signed negative ((Double.ratio m q).1 / (Double.ratio m q).2)
      if seconds < -maxSecond - 1 ∨ maxSecond < seconds then .error .instantOutOfRange
      else ofEpoch seconds (signed negative
        (fractionMicros ((Double.ratio m q).1 % (Double.ratio m q).2) (Double.ratio m q).2)) := by
  have hmax : (0 : Int) < maxSecond := by decide
  unfold ofSeconds signed
  dsimp only
  generalize (Double.ratio m q).1 / (Double.ratio m q).2 = whole
  cases negative with
  | true =>
    rw [if_pos rfl, if_pos rfl, if_pos rfl]
    split
    · rw [if_pos (by omega)]
    · rw [if_neg (by omega)]
  | false =>
    rw [if_neg Bool.false_ne_true, if_neg Bool.false_ne_true, if_neg Bool.false_ne_true]
    split
    · rw [if_pos (by omega)]
    · rw [if_neg (by omega)]

theorem ofSeconds_overruns (x : Double) : Overrun (ofSeconds x) ↔ Overruns x := by
  cases x with
  | nan => exact iff_of_false (not_overrun_error rfl) id
  | infinite negative => exact iff_of_true (overrun_error.mpr rfl) trivial
  | finite negative m q =>
    rw [ofSeconds_finite]
    exact setClock_overruns _ _

end Moment

/-! ## Mail dates -/

namespace MailDate

/-- The numbers that a date is built from, the year first, and its offset in seconds. -/
def numbers (s : List Char) : Except Fault (List Int × Option Int) := do
  let some f := fields? s | throw .malformed
  let some (day, month) := dayAndMonth? f | throw .malformed
  let some f := arrange? f | throw .malformed
  let some time := timeParts? f.time | throw .malformed
  let year ← readWhole f.year
  let day ← readWhole (dropComma day)
  let time ← time.mapM readWhole
  return ([fullYear year, month, day] ++ time, zoneSeconds? f.zone)

/-- Reading a date is reading its numbers and building a moment of them. -/
theorem read_eq_numbers (s : List Char) : read s = numbers s >>= fun n => build n.1 n.2 := by
  unfold read numbers
  cases fields? s with
  | none => rfl
  | some f =>
    dsimp only
    cases dayAndMonth? f with
    | none => rfl
    | some dm =>
      dsimp only
      cases arrange? f with
      | none => rfl
      | some g =>
        dsimp only
        cases timeParts? g.time with
        | none => rfl
        | some time =>
          simp only [bind_assoc, pure_bind]

theorem readWhole_ne_outOfRange (s : List Char) : readWhole s ≠ .error .outOfRange := by
  unfold readWhole
  cases Whole.read s with
  | ok n => exact fun h => by cases h
  | error e => exact fun h => by cases h

/-- Reading the numbers fails only with a malformed text. -/
theorem numbers_ne_outOfRange (s : List Char) : numbers s ≠ .error .outOfRange := by
  unfold numbers
  intro h
  split at h
  · split at h
    · split at h
      · split at h
        · rcases Outcome.bind_eq_error.mp h with h | ⟨_, -, h⟩
          · exact readWhole_ne_outOfRange _ h
          · rcases Outcome.bind_eq_error.mp h with h | ⟨_, -, h⟩
            · exact readWhole_ne_outOfRange _ h
            · rcases Outcome.bind_eq_error.mp h with h | ⟨_, -, h⟩
              · obtain ⟨_, _, _, -, -, h⟩ := Outcome.mapM_eq_error.mp h
                exact readWhole_ne_outOfRange _ h
              · cases h
        · cases h
      · cases h
    · cases h
  · cases h

/-- Whether numbers and an offset are too large to be looked at. An offset of a day or more is
refused before the numbers are. -/
def TooLarge (numbers : List Int) (offset : Option Int) : Prop :=
  (∃ o, offset = some o ∧ maxOffsetDays < (Int.fdiv o 86400).natAbs) ∨
    (∀ o, offset = some o → o.natAbs < 86400) ∧ ∃ n ∈ numbers, maxField < n ∨ n < -maxField - 1

/-- What is left to do when the offset is below one day and the numbers are small enough. -/
theorem build_numbers_ne_outOfRange (numbers : List Int) (offset : Option Int) :
    (if numbers.any (· < 0) then .error .malformed
      else match numbers.map Int.toNat with
        | [y, m, d, h, min, s] =>
          match Moment.ofParts? ⟨y, m, d⟩ ⟨h, min, s, 0⟩
              (offset.map (· * Moment.microsPerSecond)) with
          | some moment => .ok moment
          | none => .error .malformed
        | _ => .error .malformed : Except Fault Moment) ≠ .error .outOfRange := by
  intro h
  split at h
  · cases h
  · split at h
    · split at h
      · cases h
      · cases h
    · cases h

theorem build_outOfRange (numbers : List Int) (offset : Option Int) :
    build numbers offset = .error .outOfRange ↔ TooLarge numbers offset := by
  have hany : (numbers.any fun n => maxField < n || n < -maxField - 1) = true ↔
      ∃ n ∈ numbers, maxField < n ∨ n < -maxField - 1 := by
    simp only [List.any_eq_true, Bool.or_eq_true, decide_eq_true_eq]
  unfold build TooLarge
  rw [← hany]
  split
  · next h =>
    obtain ⟨o, ho, hdays⟩ := (Option.any_eq_true ..).mp h
    exact iff_of_true rfl (Or.inl ⟨o, ho, of_decide_eq_true hdays⟩)
  · next hdays =>
    split
    · next h =>
      obtain ⟨o, ho, hlong⟩ := (Option.any_eq_true ..).mp h
      have hlong := of_decide_eq_true hlong
      refine iff_of_false (fun h => by cases h) ?_
      rintro (⟨k, hk, hkdays⟩ | ⟨hshort, -⟩)
      · exact hdays ((Option.any_eq_true ..).mpr ⟨k, hk, decide_eq_true hkdays⟩)
      · exact absurd (hshort o ho) (Nat.not_lt.mpr hlong)
    · next hshort =>
      have hshort : ∀ o, offset = some o → o.natAbs < 86400 := fun o ho =>
        Nat.not_le.mp fun hle =>
          hshort ((Option.any_eq_true ..).mpr ⟨o, ho, decide_eq_true hle⟩)
      have hleft : ¬ ∃ o, offset = some o ∧ maxOffsetDays < (Int.fdiv o 86400).natAbs :=
        fun ⟨o, ho, hkdays⟩ =>
          hdays ((Option.any_eq_true ..).mpr ⟨o, ho, decide_eq_true hkdays⟩)
      split
      · next h => exact iff_of_true rfl (Or.inr ⟨hshort, h⟩)
      · next h =>
        refine iff_of_false (build_numbers_ne_outOfRange numbers offset) ?_
        rintro (hoffset | ⟨-, hfields⟩)
        · exact hleft hoffset
        · exact h hfields

end MailDate

/-! ## Timestamps -/

namespace Timestamp

/-- Whether the date is beyond what a clock shows once it is taken to UTC. -/
def LeavesClock (m : Moment) : Prop := m.utc? = none

theorem toUtc_overruns (m : Moment) : Overrun (toUtc m) ↔ LeavesClock m := by
  unfold toUtc LeavesClock
  cases m.utc? with
  | none => exact iff_of_true (overrun_error.mpr rfl) rfl
  | some u => exact iff_of_false (not_overrun_ok u) (fun h => by cases h)

/-- Whether a text without white space around it is that of an instant that no clock shows. -/
def Overruns : TimestampFormat → List Char → Prop
  | .dateTime, s => carriesOffset s = true ∧
      ∃ m, IsoReader.read (spellOffset s) = some m ∧ LeavesClock m
  | .httpDate, s => ∃ n, MailDate.numbers s = .ok n ∧
      (MailDate.TooLarge n.1 n.2 ∨ ∃ m, MailDate.build n.1 n.2 = .ok m ∧ LeavesClock m)
  | .epochSeconds, s => ∃ x, Real.read s = some x ∧ Moment.Overruns x

theorem readDateTime_overruns (s : List Char) :
    Overrun (readDateTime s) ↔ Overruns .dateTime s := by
  unfold readDateTime Overruns
  dsimp only
  cases hc : carriesOffset s with
  | false =>
    rw [Bool.not_false, if_pos rfl]
    refine iff_of_false (not_overrun_error rfl) ?_
    rintro ⟨h, -⟩
    cases h
  | true =>
    rw [Bool.not_true, if_neg Bool.false_ne_true]
    cases hread : IsoReader.read (spellOffset s) with
    | none =>
      refine iff_of_false (not_overrun_error rfl) ?_
      rintro ⟨-, m, hm, -⟩
      cases hm
    | some m =>
      dsimp only
      rw [toUtc_overruns]
      simp only [true_and, Option.some.injEq, exists_eq_left']

theorem readHttpDate_overruns (s : List Char) :
    Overrun (readHttpDate s) ↔ Overruns .httpDate s := by
  unfold readHttpDate Overruns
  dsimp only
  rw [MailDate.read_eq_numbers]
  cases hn : MailDate.numbers s with
  | error e =>
    have hmalformed : e = .malformed := by
      cases e with
      | malformed => rfl
      | outOfRange => exact absurd hn (MailDate.numbers_ne_outOfRange s)
    rw [hmalformed]
    refine iff_of_false (not_overrun_error rfl) ?_
    rintro ⟨n, h, -⟩
    cases h
  | ok n =>
    have hbuild : (Except.ok n >>= fun n => MailDate.build n.1 n.2) = MailDate.build n.1 n.2 := rfl
    simp only [hbuild, Except.ok.injEq, exists_eq_left', ← MailDate.build_outOfRange]
    cases MailDate.build n.1 n.2 with
    | ok m =>
      dsimp only
      rw [toUtc_overruns]
      simp only [reduceCtorEq, false_or, Except.ok.injEq, exists_eq_left']
    | error e =>
      cases e with
      | malformed =>
        refine iff_of_false (not_overrun_error rfl) ?_
        rintro (h | ⟨k, hk, -⟩)
        · cases h
        · cases hk
      | outOfRange => exact iff_of_true (overrun_error.mpr rfl) (Or.inl rfl)

theorem readEpochSeconds_overruns (s : List Char) :
    Overrun (readEpochSeconds s) ↔ Overruns .epochSeconds s := by
  unfold readEpochSeconds Overruns
  dsimp only
  cases Real.read s with
  | none =>
    refine iff_of_false (not_overrun_error rfl) ?_
    rintro ⟨x, hx, -⟩
    cases hx
  | some x =>
    dsimp only
    rw [Moment.ofSeconds_overruns]
    simp only [Option.some.injEq, exists_eq_left']

/-- Reading a timestamp fails in the arithmetic exactly for an instant that no clock shows. -/
theorem read_overruns (format : TimestampFormat) (text : String) :
    Overrun (read format text) ↔ Overruns format (Text.trim Text.isBlank text.toList) := by
  unfold read
  cases format with
  | dateTime => exact readDateTime_overruns _
  | httpDate => exact readHttpDate_overruns _
  | epochSeconds => exact readEpochSeconds_overruns _

end Timestamp

end Wireform
