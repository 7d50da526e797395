import Wireform.Proofs.HeaderList.RoundTrip
import Wireform.Proofs.Time.Overruns
import Wireform.Uri.Path
import Wireform.Uri.Query

/-
  Wireform answers: what reading the texts of a message ends in. A value or a parse error is an
  answer; an error of arithmetic is none, since nobody who reads expects it. Decimals and timestamps
  are the only converters that can end so, and a reader has no answer exactly when one of their
  texts is the first that cannot be read.
-/

namespace Wireform

open ReadError (Overrun not_overrun_ok overrun_error overrun_map)

/-! ## One text -/

namespace Converter

/-- Whether reading a text ends in arithmetic that fails: it is no decimal, or it names an instant
that no clock shows. -/
def Overruns : Converter → String → Prop
  | scalar .decimal, s => Decimal.read? (Scalar.strip s).toList = none
  | timestamp format, s => Timestamp.Overruns format (Text.trim Text.isBlank s.toList)
  | _, _ => False

/-- Whether the first text that cannot be read overruns. -/
def FirstOverrun (c : Converter) (texts : List String) : Prop :=
  Outcome.FirstFault c.read c.Overruns texts

theorem not_overrun_of_malformed {α : Type} {r : Except ReadError α}
    (h : ∀ e, r = .error e → e.isMalformed = true) : ¬ Overrun r := by
  rintro ⟨e, he, hbad⟩
  rw [h e he] at hbad
  cases hbad

theorem not_overrun_whole (s : String) : ¬ Overrun (Whole.ofText s) := by
  refine not_overrun_of_malformed fun e he => ?_
  unfold Whole.ofText at he
  obtain ⟨fault, -, rfl⟩ := Outcome.mapError_eq_error.mp he
  cases fault with
  | malformed => rfl
  | tooLong n => rfl

theorem readScalar_overruns (kind : ScalarKind) (s : String) :
    Overrun (Scalar.read kind s) ↔ (scalar kind).Overruns s := by
  unfold Scalar.read
  dsimp only
  cases kind with
  | flag =>
    dsimp only
    rw [overrun_map]
    refine iff_of_false (not_overrun_of_malformed fun e he => ?_) id
    unfold Scalar.readFlag at he
    split at he
    · cases he
    · split at he
      · cases he
      · cases he
        rfl
  | whole =>
    dsimp only
    rw [overrun_map]
    exact iff_of_false (not_overrun_whole _) id
  | real =>
    dsimp only
    rw [overrun_map]
    refine iff_of_false (not_overrun_of_malformed fun e he => ?_) id
    unfold Scalar.readReal at he
    split at he
    · cases he
    · split at he
      · cases he
      · split at he
        · cases he
        · split at he
          · cases he
          · cases he
            rfl
  | decimal =>
    dsimp only
    rw [overrun_map]
    unfold Scalar.readDecimal Overruns
    dsimp only
    cases Decimal.read? (Scalar.strip s).toList with
    | none => exact iff_of_true (overrun_error.mpr rfl) rfl
    | some d => exact iff_of_false (not_overrun_ok d) fun h => by cases h

theorem not_overrun_readBase64 (s : String) : ¬ Overrun (Scalar.readBase64 s) := by
  refine not_overrun_of_malformed fun e he => ?_
  unfold Scalar.readBase64 at he
  split at he
  · cases he
    rfl
  · split at he
    · cases he
    · cases he
      rfl

theorem not_overrun_readBase64Text (s : String) : ¬ Overrun (Scalar.readBase64Text s) := by
  rintro ⟨e, he, hbad⟩
  rcases Outcome.bind_eq_error.mp he with he | ⟨b, -, he⟩
  · exact not_overrun_readBase64 s ⟨e, he, hbad⟩
  · split at he
    · cases he
    · cases he
      cases hbad

theorem not_overrun_member (e : Enumeration) (strict : Bool) (s : String) :
    ¬ Overrun (e.read strict s) := by
  refine not_overrun_of_malformed fun err he => ?_
  unfold Enumeration.read at he
  split at he
  · cases he
  · split at he
    · cases he
      rfl
    · cases he

/-- Reading a text fails in the arithmetic exactly when it overruns. -/
theorem read_overruns (c : Converter) (s : String) : Overrun (c.read s) ↔ c.Overruns s := by
  cases c with
  | plain => exact iff_of_false (not_overrun_ok _) id
  | scalar kind => exact readScalar_overruns kind s
  | timestamp format =>
    unfold read
    rw [overrun_map, Timestamp.read_overruns]
    exact Iff.rfl
  | base64 =>
    unfold read
    rw [overrun_map]
    exact iff_of_false (not_overrun_readBase64 s) id
  | base64Text =>
    unfold read
    rw [overrun_map]
    exact iff_of_false (not_overrun_readBase64Text s) id
  | member e strict => exact iff_of_false (not_overrun_member e strict s) id

end Converter

/-! ## All texts of a reader -/

namespace WireError

variable {α β : Type}

/-- Whether reading ends in a value or in a parse error. -/
def Answered (r : Except WireError α) : Prop :=
  (∃ a, r = .ok a) ∨ ∃ e, r = .error (.malformed e)

theorem answered_ok (a : α) : Answered (.ok a) := Or.inl ⟨a, rfl⟩

theorem answered_error {e : WireError} :
    Answered (.error e : Except WireError α) ↔ ∃ p, e = .malformed p := by
  constructor
  · rintro (⟨a, h⟩ | ⟨p, h⟩)
    · cases h
    · exact ⟨p, Except.error.inj h⟩
  · rintro ⟨p, rfl⟩
    exact Or.inr ⟨p, rfl⟩

theorem answered_malformed (p : ParseError) :
    Answered (.error (.malformed p) : Except WireError α) := answered_error.mpr ⟨p, rfl⟩

theorem not_answered_iff {r : Except WireError α} :
    ¬ Answered r ↔ ∃ e, r = .error e ∧ ¬ ∃ p, e = .malformed p := by
  cases r with
  | ok a =>
    refine iff_of_false (fun h => h (answered_ok a)) ?_
    rintro ⟨e, h, -⟩
    cases h
  | error e =>
    rw [answered_error]
    constructor
    · exact fun h => ⟨e, rfl, h⟩
    · rintro ⟨e', h, he⟩
      cases h
      exact he

theorem wrap_eq_mapError {cause : ReadError → ParseError} {r : Except ReadError α} :
    wrap cause r =
      r.mapError fun e => if e.isMalformed then .malformed (cause e) else .arithmetic e := by
  cases r with
  | ok a => rfl
  | error e => rfl

theorem lift_eq_mapError {r : Except ParseError α} : lift r = r.mapError .malformed := by
  cases r with
  | ok a => rfl
  | error e => rfl

theorem wrap_eq_ok {cause : ReadError → ParseError} {r : Except ReadError α} {a : α} :
    wrap cause r = .ok a ↔ r = .ok a := by
  rw [wrap_eq_mapError, Outcome.mapError_eq_ok]

theorem lift_eq_ok {r : Except ParseError α} {a : α} : lift r = .ok a ↔ r = .ok a := by
  rw [lift_eq_mapError, Outcome.mapError_eq_ok]

theorem answered_wrap (cause : ReadError → ParseError) (r : Except ReadError α) :
    Answered (wrap cause r) ↔ ¬ Overrun r := by
  cases r with
  | ok a => exact iff_of_true (answered_ok a) (not_overrun_ok a)
  | error e =>
    unfold wrap
    dsimp only
    rw [overrun_error, answered_error]
    cases e.isMalformed with
    | true => exact iff_of_true ⟨_, if_pos rfl⟩ Bool.true_eq_false.mp
    | false =>
      refine iff_of_false ?_ (absurd rfl)
      rintro ⟨p, h⟩
      cases h

/-- A chain has an answer unless it gets past its first step and has none behind it. -/
theorem answered_bind_lift (r : Except ParseError α) (f : α → Except WireError β) :
    Answered (lift r >>= f) ↔ ¬ ∃ a, r = .ok a ∧ ¬ Answered (f a) := by
  cases r with
  | error e =>
    refine iff_of_true (answered_malformed e) ?_
    rintro ⟨a, h, -⟩
    cases h
  | ok a =>
    constructor
    · rintro h ⟨b, hb, hn⟩
      cases hb
      exact hn h
    · intro h
      by_cases ha : Answered (f a)
      · exact ha
      · exact absurd ⟨a, rfl, ha⟩ h

theorem answered_map (r : Except WireError α) (f : α → β) :
    Answered (r >>= fun a => pure (f a)) ↔ Answered r := by
  cases r with
  | ok a => exact iff_of_true (answered_ok _) (answered_ok a)
  | error e => exact answered_error.trans answered_error.symm

theorem answered_mapM {γ : Type} (f : γ → Except WireError α) (xs : List γ) :
    Answered (xs.mapM f) ↔ ¬ Outcome.FirstFault f (fun x => ¬ Answered (f x)) xs := by
  simp only [not_answered_iff]
  rw [← Outcome.exists_mapM_eq_error, ← not_answered_iff, not_not]

end WireError

open WireError (Answered answered_wrap answered_bind_lift answered_map answered_mapM)

theorem overrun_mapM {α β : Type} (f : α → Except ReadError β) (xs : List α) :
    Overrun (xs.mapM f) ↔ Outcome.FirstFault f (fun x => Overrun (f x)) xs :=
  Outcome.exists_mapM_eq_error

theorem Converter.overrun_mapM_read (c : Converter) (texts : List String) :
    Overrun (texts.mapM c.read) ↔ c.FirstOverrun texts := by
  rw [overrun_mapM]
  exact Outcome.firstFault_congr (fun _ => Iff.rfl) c.read_overruns

namespace HeaderList

variable {values : List String}

theorem answered_readMany (c : Converter) :
    Answered (readMany c values) ↔
      ¬ ∃ parts, split values = .ok parts ∧ c.FirstOverrun parts := by
  unfold readMany
  rw [answered_bind_lift]
  simp only [answered_wrap, not_not, c.overrun_mapM_read]

theorem answered_readScalars (kind : ScalarKind) :
    Answered (readScalars kind values) ↔
      ¬ ∃ parts, split values = .ok parts ∧ (Converter.scalar kind).FirstOverrun parts := by
  unfold readScalars
  rw [answered_bind_lift]
  simp only [Outcome.mapError_eq_ok, answered_wrap, not_not]
  simp only [← (Converter.scalar kind).overrun_mapM_read]
  exact Iff.rfl

theorem answered_readMedia : Answered (readMedia values) := by
  unfold readMedia
  rw [answered_bind_lift]
  rintro ⟨parts, -, h⟩
  rw [answered_wrap, not_not, overrun_mapM] at h
  obtain ⟨_, s, _, -, -, hs⟩ := h
  exact Converter.not_overrun_readBase64Text s hs

/-- The texts that stand for one date each; a list of http-dates may break off within one. -/
def dates? (format : TimestampFormat) (values : List String) : Option (List String) :=
  match format with
  | .httpDate => pairDates (dateParts values)
  | _ => some (dateParts values)

theorem overrun_mapM_timestamp (format : TimestampFormat) (parts : List String) :
    Overrun (parts.mapM (Timestamp.read format)) ↔
      (Converter.timestamp format).FirstOverrun parts := by
  rw [overrun_mapM]
  refine Outcome.firstFault_congr (fun s => ?_) fun s => ?_
  · unfold Converter.read
    simp only [Outcome.map_eq_ok]
    constructor
    · rintro ⟨m, hm⟩
      exact ⟨_, m, hm, rfl⟩
    · rintro ⟨_, m, hm, -⟩
      exact ⟨m, hm⟩
  · rw [← Converter.read_overruns]
    unfold Converter.read
    rw [overrun_map]

theorem readDates_eq (format : TimestampFormat) :
    readDates format values = match dates? format values with
      | some parts => WireError.wrap .item (parts.mapM (Timestamp.read format))
      | none => .error (.malformed .incompleteDate) := by
  unfold readDates dates?
  cases format with
  | dateTime => rfl
  | epochSeconds => rfl
  | httpDate =>
    dsimp only
    cases pairDates (dateParts values) with
    | none => rfl
    | some parts => rfl

theorem answered_readDates (format : TimestampFormat) :
    Answered (readDates format values) ↔
      ¬ ∃ parts, dates? format values = some parts ∧
        (Converter.timestamp format).FirstOverrun parts := by
  rw [readDates_eq]
  cases dates? format values with
  | none =>
    refine iff_of_true (WireError.answered_malformed _) ?_
    rintro ⟨parts, h, -⟩
    cases h
  | some parts =>
    dsimp only
    rw [answered_wrap, overrun_mapM_timestamp]
    simp only [Option.some.injEq, exists_eq_left']

end HeaderList

namespace Query

theorem answered_read (c : Converter) (singular : Bool) (vs : List String) :
    Answered (read c singular vs) ↔
      singular = true ∧ 1 < vs.length ∨ ¬ c.FirstOverrun vs := by
  unfold read
  split
  · next h =>
    rw [Bool.and_eq_true, decide_eq_true_eq] at h
    exact iff_of_true (WireError.answered_malformed _) (Or.inl h)
  · next h =>
    rw [Bool.and_eq_true, decide_eq_true_eq] at h
    rw [answered_map, answered_wrap, c.overrun_mapM_read]
    exact ⟨Or.inr, fun ha => ha.resolve_left h⟩

theorem answered_readAll (c : Converter) (multi : Bool) (params : List (String × String)) :
    Answered (readAll c multi params) ↔
      ¬ c.FirstOverrun ((Entries.group params).flatMap (·.2)) := by
  unfold readAll Converter.FirstOverrun
  rw [answered_mapM, Outcome.firstFault_flatMap]
  refine not_congr (Outcome.firstFault_congr (fun entry => ?_) fun entry => ?_)
  · unfold readEntry
    simp only [Outcome.bind_eq_ok, WireError.wrap_eq_ok]
    constructor
    · rintro ⟨_, parsed, h, -⟩
      exact ⟨parsed, h⟩
    · rintro ⟨parsed, h⟩
      exact ⟨_, parsed, h, rfl⟩
  · unfold readEntry
    rw [answered_map, answered_wrap, not_not, c.overrun_mapM_read]
    exact Iff.rfl

end Query

theorem Path.answered_readLabel (labels : List (String × String)) (name : String)
    (c : Converter) : Answered (readLabel labels name c) ↔
      ∃ text, Entries.get? name labels = some text ∧ ¬ c.Overruns text := by
  unfold readLabel
  cases Entries.get? name labels with
  | none =>
    refine iff_of_false ?_ ?_
    · rw [WireError.answered_error]
      rintro ⟨p, h⟩
      cases h
    · rintro ⟨text, h, -⟩
      cases h
  | some text =>
    dsimp only
    rw [answered_wrap, c.read_overruns]
    simp only [Option.some.injEq, exists_eq_left']

/-! ## All readers -/

/-- A reader of wire texts answers with a value or a parse error unless the first of its texts that
cannot be read is no decimal or names an instant that no clock shows. -/
theorem Converter.answered_iff (c : Converter) (kind : ScalarKind) (format : TimestampFormat)
    (singular multi : Bool) (values : List String) (params labels : List (String × String))
    (name : String) :
    (Answered (HeaderList.readMany c values) ↔
      ¬ ∃ parts, HeaderList.split values = .ok parts ∧ c.FirstOverrun parts) ∧
    (Answered (HeaderList.readScalars kind values) ↔
      ¬ ∃ parts, HeaderList.split values = .ok parts ∧ (scalar kind).FirstOverrun parts) ∧
    Answered (HeaderList.readMedia values) ∧
    (Answered (HeaderList.readDates format values) ↔
      ¬ ∃ parts, HeaderList.dates? format values = some parts ∧
        (timestamp format).FirstOverrun parts) ∧
    (Answered (Query.read c singular values) ↔
      singular = true ∧ 1 < values.length ∨ ¬ c.FirstOverrun values) ∧
    (Answered (Query.readAll c multi params) ↔
      ¬ c.FirstOverrun ((Entries.group params).flatMap (·.2))) ∧
    (Answered (Path.readLabel labels name c) ↔
      ∃ text, Entries.get? name labels = some text ∧ ¬ c.Overruns text) :=
  ⟨HeaderList.answered_readMany c, HeaderList.answered_readScalars kind,
    HeaderList.answered_readMedia, HeaderList.answered_readDates format,
    Query.answered_read c singular values, Query.answered_readAll c multi params,
    Path.answered_readLabel labels name c⟩

theorem Converter.firstOverrun_singleton {c : Converter} {s : String} (h : c.Overruns s) :
    c.FirstOverrun [s] := ⟨[], s, [], rfl, fun _ hn => absurd hn List.not_mem_nil, h⟩

/-- A text that is no decimal has no answer, nor has a date in year 1 whose offset takes it out of
the calendar, nor an endless number of seconds. -/
theorem Converter.not_answered :
    ¬ Answered (HeaderList.readScalars .decimal ["abc"]) ∧
    ¬ Answered (HeaderList.readDates .dateTime ["0001-01-01T00:00:00+01:00"]) ∧
    ¬ Answered (Path.readLabel [("when", "inf")] "when" (timestamp .epochSeconds)) := by
  refine ⟨?_, ?_, ?_⟩
  · have hquote : HeaderList.write ["abc"] = "abc" := by decide
    rw [HeaderList.answered_readScalars, not_not]
    refine ⟨["abc"], hquote ▸ HeaderList.split_write ["abc"], firstOverrun_singleton ?_⟩
    show Decimal.read? (Scalar.strip "abc").toList = none
    decide +kernel
  · rw [HeaderList.answered_readDates, not_not]
    refine ⟨["0001-01-01T00:00:00+01:00"], by decide +kernel, firstOverrun_singleton ?_⟩
    exact ⟨by decide +kernel, ⟨0, some 3600000000⟩, by decide +kernel, rfl⟩
  · rw [Path.answered_readLabel]
    rintro ⟨text, h, ht⟩
    cases h
    exact ht ⟨.infinite false, by decide +kernel, trivial⟩

end Wireform
