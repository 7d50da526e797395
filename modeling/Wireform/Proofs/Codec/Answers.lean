import Wireform.Codec.Decode
import Wireform.Codec.Sample
import Wireform.Proofs.Answers
import Wireform.Proofs.Json.Octets

/-
  Wireform codec, answers: what decoding a structure ends in. A record or a protocol error settles
  it. Two things leave it unsettled: a whole number with too many digits where the document is
  well formed so far, and a first unreadable field whose value breaks its reader, because the
  arithmetic of a number or a timestamp overflows or because a value of the wrong type is used for
  what only the right type can do. `settles_iff` says that nothing else in the text does. How deep
  lists and objects may nest before an interpreter's stack has no room for them is outside the
  model: its reader takes them to any depth.
-/

namespace Wireform

open ReadError (Overrun not_overrun_ok overrun_map)

/-- Whether the caller is told that the payload is bad, and gets no error of another kind. -/
def CodecError.isProtocol : CodecError → Bool
  | .tooManyDigits _ => false
  | .arithmetic _ => false
  | .stream _ => false
  | _ => true

/-! ## Numbers with too many digits -/

namespace Json

/-- Whether a value may start at a place. -/
def Place.takesValue : Place → Bool
  | .value _ => true
  | .firstItem _ => true
  | _ => false

/-- Whether a text is well formed up to a number of too many digits. -/
def MeetsLongNumber (s : List Char) : Prop :=
  ∃ before n after p, (tokens s).1 = before ++ .tooLong n :: after ∧
    before.foldlM step (.value []) = .ok p ∧ p.takesValue = true

theorem startValue_tooManyDigits {around : List Frame} {t : Token} {n : Nat} :
    startValue around t = .error (.tooManyDigits n) ↔ t = .tooLong n := by
  cases t with
  | tooLong m =>
    rw [startValue, Except.error.injEq, Fault.tooManyDigits.injEq, Token.tooLong.injEq]
  | _ => exact iff_of_false (fun h => by cases h) fun h => by cases h

/-- One step finds a number of too many digits only in that number, where a value may start. -/
theorem step_tooManyDigits {p : Place} {t : Token} {n : Nat} :
    step p t = .error (.tooManyDigits n) ↔ p.takesValue = true ∧ t = .tooLong n := by
  have hnever : ∀ {r : Except Fault Place}, p.takesValue = false →
      r ≠ .error (.tooManyDigits n) →
      (r = .error (.tooManyDigits n) ↔ p.takesValue = true ∧ t = .tooLong n) := fun hp hr =>
    iff_of_false hr fun h => Bool.false_ne_true (hp.symm.trans h.1)
  cases p with
  | value around => exact startValue_tooManyDigits.trans (and_iff_right rfl).symm
  | firstItem around =>
    by_cases ht : t = .listEnd
    · subst ht
      exact iff_of_false (fun h => by cases h) fun h => by cases h.2
    · rw [starts_firstItem around t ht]
      exact startValue_tooManyDigits.trans (and_iff_right rfl).symm
  | after j around =>
    refine hnever rfl fun h => ?_
    rcases around with _ | ⟨_ | _, around⟩ <;> cases t <;> cases h
  | _ => exact hnever rfl fun h => by cases t <;> cases h

theorem read_tooManyDigits {s : List Char} :
    (∃ n, read s = .error (.tooManyDigits n)) ↔ MeetsLongNumber s := by
  constructor
  · rintro ⟨n, h⟩
    rcases Outcome.bind_eq_error.mp h with h | ⟨p, -, h⟩
    · obtain ⟨before, t, after, p, hsplit, hbefore, hstep⟩ := Outcome.foldlM_eq_error.mp h
      obtain ⟨hp, rfl⟩ := step_tooManyDigits.mp hstep
      exact ⟨before, n, after, p, hsplit, hbefore, hp⟩
    · split at h <;> cases h
  · rintro ⟨before, n, after, p, hsplit, hbefore, hp⟩
    refine ⟨n, Outcome.bind_eq_error.mpr (Or.inl (Outcome.foldlM_eq_error.mpr ?_))⟩
    exact ⟨before, _, after, p, hsplit, hbefore, step_tooManyDigits.mpr ⟨hp, rfl⟩⟩

theorem readOctets_tooManyDigits {data : Bytes} :
    (∃ n, readOctets data = .error (.tooManyDigits n)) ↔
      ∃ text, decodeOctets data = some text ∧ MeetsLongNumber text := by
  unfold readOctets
  cases decodeOctets data with
  | none =>
    refine iff_of_false ?_ ?_
    · rintro ⟨n, h⟩
      cases h
    · rintro ⟨text, h, -⟩
      cases h
  | some text =>
    dsimp only
    rw [read_tooManyDigits]
    exact ⟨fun h => ⟨text, rfl, h⟩, fun ⟨t, ht, h⟩ => Option.some.inj ht ▸ h⟩

theorem readOctets_nil : readOctets [] = .error .malformed := by
  have hempty : decodeOctets [] = some [] := decodeOctets_encode (s := []) (by decide)
  unfold readOctets
  rw [hempty]
  dsimp only
  rw [read, tokens]
  rfl

end Json

namespace Codec

/-! ## Values that break their reader -/

/-- The entry of a field; one that is not there is null. -/
def entry (entries : List (String × Json)) (f : String × String × FieldKind) : Json :=
  (Entries.get? f.1 entries).getD .null

/-- Whether reading fails and it is no matter of the form. -/
def Broken {α : Type} (r : Except FieldFault α) : Prop := ∃ e, r = .error e ∧ e.isInvalid = false

/-- The entries that break the reader of a field: numbers and texts whose arithmetic overflows,
lists and maps as timestamps, and anything but a map as a record. A record breaks in the first of
its fields that cannot be read. -/
inductive Breaks : FieldKind → Json → Prop
  | infinite (negative : Bool) : Breaks .whole (.real (.infinite negative))
  | seconds {format : TimestampFormat} {n : Int} (h : Moment.BeyondClock n 0) :
    Breaks (.timestamp format) (.whole n)
  | fraction {format : TimestampFormat} {x : Double} (h : Moment.Overruns x) :
    Breaks (.timestamp format) (.real x)
  | instant {format : TimestampFormat} {s : String}
    (h : Timestamp.Overruns format (Text.trim Text.isBlank s.toList)) :
    Breaks (.timestamp format) (.text s)
  | list {format : TimestampFormat} (xs : List Json) : Breaks (.timestamp format) (.list xs)
  | map {format : TimestampFormat} (entries : List (String × Json)) :
    Breaks (.timestamp format) (.map entries)
  | noMap {type : String} {fields : List (String × String × FieldKind)} {j : Json}
    (hnull : j ≠ .null) (hmap : ∀ entries, j ≠ .map entries) : Breaks (.record type fields) j
  | inner {type : String} {before after : List (String × String × FieldKind)}
    {f : String × String × FieldKind} {entries : List (String × Json)}
    (hbefore : ∀ g ∈ before, ∃ v,
      readField g.2.2 (entry (renamed (before ++ f :: after) entries) g) = .ok v)
    (h : Breaks f.2.2 (entry (renamed (before ++ f :: after) entries) f)) :
    Breaks (.record type (before ++ f :: after)) (.map entries)

section

variable {α β : Type}

theorem not_broken_ok (a : α) : ¬ Broken (.ok a) := by
  rintro ⟨e, h, -⟩
  cases h

theorem broken_error {e : FieldFault} :
    Broken (.error e : Except FieldFault α) ↔ e.isInvalid = false := by
  constructor
  · rintro ⟨e', h, he⟩
    cases h
    exact he
  · exact fun he => ⟨e, rfl, he⟩

theorem not_broken_error {e : FieldFault} (h : e.isInvalid = true) :
    ¬ Broken (.error e : Except FieldFault α) := by
  rw [broken_error, h]
  exact Bool.noConfusion

theorem broken_map {r : Except FieldFault α} {f : α → β} : Broken (r.map f) ↔ Broken r := by
  unfold Broken
  simp only [Outcome.map_eq_error]

/-- What is read by another reader breaks when that overruns. -/
theorem broken_read {r : Except ReadError α} {f : α → β} :
    Broken ((r.map f).mapError .read) ↔ Overrun r := by
  unfold Broken Overrun
  simp only [Outcome.mapError_eq_error, Outcome.map_eq_error]
  constructor
  · rintro ⟨_, ⟨e, he, rfl⟩, hbad⟩
    exact ⟨e, he, hbad⟩
  · rintro ⟨e, he, hbad⟩
    exact ⟨_, ⟨e, he, rfl⟩, hbad⟩

end

theorem readWhole_broken (j : Json) :
    Broken (readWhole j) ↔ ∃ negative, j = .real (.infinite negative) := by
  have hnever : ∀ {r : Except FieldFault Value}, ¬ Broken r →
      (∀ negative, j ≠ .real (.infinite negative)) →
      (Broken r ↔ ∃ negative, j = .real (.infinite negative)) := fun hr hj =>
    iff_of_false hr fun ⟨negative, h⟩ => hj negative h
  cases j with
  | real x =>
    cases x with
    | nan => exact hnever (not_broken_error rfl) fun _ h => by cases h
    | infinite negative => exact iff_of_true (broken_error.mpr rfl) ⟨negative, rfl⟩
    | finite negative m q => exact hnever (not_broken_ok _) fun _ h => by cases h
  | text s =>
    refine hnever ?_ fun _ h => by cases h
    rintro ⟨e, he, hbad⟩
    obtain ⟨fault, hfault, rfl⟩ := Outcome.mapError_eq_error.mp he
    obtain ⟨cause, hcause, rfl⟩ := Outcome.mapError_eq_error.mp (Outcome.map_eq_error.mp hfault)
    exact Converter.not_overrun_whole s ⟨cause, hcause, hbad⟩
  | flag b => exact hnever (not_broken_ok _) fun _ h => by cases h
  | whole n => exact hnever (not_broken_ok _) fun _ h => by cases h
  | _ => exact hnever (not_broken_error rfl) fun _ h => by cases h

theorem readTimestamp_broken (format : TimestampFormat) (j : Json) :
    Broken (readTimestamp format (.ofJson j)) ↔ Breaks (.timestamp format) j := by
  cases j with
  | null => exact iff_of_false (not_broken_ok _) fun h => by cases h
  | flag b =>
    have hvalue : ∃ m, Moment.ofWholeSeconds (if b then 1 else 0) = .ok m := by
      cases b <;> exact ⟨_, rfl⟩
    obtain ⟨m, hm⟩ := hvalue
    refine iff_of_false ?_ fun h => by cases h
    unfold Value.ofJson readTimestamp
    dsimp only
    rw [hm]
    exact not_broken_ok _
  | whole n =>
    unfold Value.ofJson readTimestamp
    rw [broken_read, Moment.ofWholeSeconds_overruns]
    exact ⟨.seconds, fun h => by cases h; assumption⟩
  | real x =>
    unfold Value.ofJson readTimestamp
    rw [broken_read, Moment.ofSeconds_overruns]
    exact ⟨.fraction, fun h => by cases h; assumption⟩
  | text s =>
    unfold Value.ofJson readTimestamp
    rw [broken_read, Timestamp.read_overruns]
    exact ⟨.instant, fun h => by cases h; assumption⟩
  | list xs => exact iff_of_true (broken_error.mpr rfl) (.list xs)
  | map entries => exact iff_of_true (broken_error.mpr rfl) (.map entries)

theorem not_broken_readTexts (j : Json) : ¬ Broken (readTexts j) := by
  cases j with
  | list xs => exact not_broken_ok _
  | text s => exact not_broken_ok _
  | map fields => exact not_broken_ok _
  | _ => exact not_broken_error rfl

theorem not_broken_readBlob (j : Json) : ¬ Broken (readBlob (.ofJson j)) := by
  cases j with
  | null => exact not_broken_ok _
  | text s =>
    unfold Value.ofJson readBlob
    rw [broken_read]
    exact Converter.not_overrun_readBase64 s
  | _ => exact not_broken_error rfl

theorem not_broken_readMember (e : Enumeration) (j : Json) : ¬ Broken (readMember e j) := by
  cases j with
  | text s =>
    rintro ⟨fault, hfault, hbad⟩
    obtain ⟨cause, hcause, rfl⟩ := Outcome.mapError_eq_error.mp hfault
    exact Converter.not_overrun_member e true s ⟨cause, hcause, hbad⟩
  | _ => exact not_broken_error rfl

/-! ## Fields -/

/-- The fields of a record are read one by one. -/
theorem readFields_eq_mapM (fields : List (String × String × FieldKind))
    (entries : List (String × Json)) : readFields fields entries =
      fields.mapM fun f => (readField f.2.2 (entry entries f)).map fun v => (f.1, v) := by
  induction fields with
  | nil => rfl
  | cons f r ih =>
    obtain ⟨name, wire, kind⟩ := f
    rw [List.mapM_cons, readFields, ih]
    unfold entry
    cases readField kind ((Entries.get? name entries).getD .null) with
    | error e => rfl
    | ok v => rfl

/-- Fields break with the first one that cannot be read. -/
theorem readFields_broken (fields : List (String × String × FieldKind))
    (entries : List (String × Json)) : Broken (readFields fields entries) ↔
      Outcome.FirstFault (fun f => readField f.2.2 (entry entries f))
        (fun f => Broken (readField f.2.2 (entry entries f))) fields := by
  unfold Broken
  rw [readFields_eq_mapM, Outcome.exists_mapM_eq_error]
  unfold Outcome.FirstFault
  simp only [Outcome.exists_map_eq_ok, Outcome.map_eq_error]

theorem breaks_map_iff {type : String} {fields : List (String × String × FieldKind)}
    {entries : List (String × Json)} : Breaks (.record type fields) (.map entries) ↔
      Outcome.FirstFault (fun f => readField f.2.2 (entry (renamed fields entries) f))
        (fun f => Breaks f.2.2 (entry (renamed fields entries) f)) fields := by
  constructor
  · intro h
    generalize hj : Json.map entries = j at h
    cases h with
    | noMap hnull hmap => exact absurd hj.symm (hmap entries)
    | inner hbefore h =>
      cases hj
      exact ⟨_, _, _, rfl, hbefore, h⟩
  · rintro ⟨before, f, after, rfl, hbefore, h⟩
    exact .inner hbefore h

mutual

/-- Reading a field fails in what is no matter of the form exactly for entries that break it. -/
theorem readField_broken (kind : FieldKind) (j : Json) :
    Broken (readField kind j) ↔ Breaks kind j := by
  by_cases hnull : j = .null
  · subst hnull
    rw [readField]
    refine iff_of_false (not_broken_ok _) fun h => ?_
    cases h with
    | noMap hnull _ => exact hnull rfl
  cases kind with
  | text =>
    refine iff_of_false ?_ fun h => by cases h
    rw [readField.eq_2 j hnull]
    exact not_broken_ok _
  | whole =>
    rw [readField.eq_3 j hnull, readWhole_broken]
    constructor
    · rintro ⟨negative, rfl⟩
      exact .infinite negative
    · rintro (negative | _)
      exact ⟨negative, rfl⟩
  | texts =>
    rw [readField.eq_4 j hnull]
    exact iff_of_false (not_broken_readTexts j) fun h => by cases h
  | timestamp format =>
    rw [readField.eq_5 j format hnull]
    exact readTimestamp_broken format j
  | blob =>
    rw [readField.eq_6 j hnull]
    exact iff_of_false (not_broken_readBlob j) fun h => by cases h
  | member e =>
    rw [readField.eq_7 j e hnull]
    exact iff_of_false (not_broken_readMember e j) fun h => by cases h
  | record type fields =>
    by_cases hmap : ∃ entries, j = .map entries
    · obtain ⟨entries, rfl⟩ := hmap
      have hfields := readField_broken_of_mem fields
      rw [readField, broken_map, readFields_broken, breaks_map_iff]
      exact Outcome.firstFault_congr_of_mem fun f hf => hfields f hf _
    · rw [not_exists] at hmap
      rw [readField.eq_9 j type fields hnull hmap]
      exact iff_of_true (broken_error.mpr rfl) (.noMap hnull hmap)

theorem readField_broken_of_mem (fields : List (String × String × FieldKind)) :
    ∀ f ∈ fields, ∀ j, Broken (readField f.2.2 j) ↔ Breaks f.2.2 j := by
  cases fields with
  | nil => exact fun f hf => absurd hf List.not_mem_nil
  | cons g r =>
    obtain ⟨name, wire, kind⟩ := g
    intro f hf j
    rcases List.mem_cons.mp hf with rfl | hf
    · exact readField_broken kind j
    · exact readField_broken_of_mem r f hf j

end

/-! ## Bodies -/

/-- Whether a value is a record with the fields of a schema. -/
def IsInstance (s : Schema) (v : Value) : Prop :=
  ∃ fields, v = .record s.type fields ∧ fields.map (·.1) = s.fields.map (·.1)

/-- Whether decoding ends in a record or in a protocol error. -/
def Settles (s : Schema) (r : Except CodecError Value) : Prop :=
  (∃ v, r = .ok v ∧ IsInstance s v) ∨ ∃ e, r = .error e ∧ e.isProtocol = true

/-- Whether octets hold a number with too many digits, or a map that breaks the reader of a
field. -/
def Overtaxes (s : Schema) (data : Bytes) : Prop :=
  (∃ text, Json.decodeOctets data = some text ∧ Json.MeetsLongNumber text) ∨
    ∃ entries, Json.readOctets data = .ok (.map entries) ∧
      Breaks (.record s.type s.fields) (.map entries)

theorem settles_error {s : Schema} {e : CodecError} :
    Settles s (.error e) ↔ e.isProtocol = true := by
  constructor
  · rintro (⟨v, h, -⟩ | ⟨e', h, he⟩)
    · cases h
    · cases h
      exact he
  · exact fun h => Or.inr ⟨e, rfl, h⟩

/-- The record of a map settles unless the map breaks a reader. -/
theorem settles_recordOfJson (s : Schema) (entries : List (String × Json)) :
    Settles s (recordOfJson s (.map entries)) ↔
      ¬ Breaks (.record s.type s.fields) (.map entries) := by
  rw [← readField_broken, readField, broken_map]
  unfold recordOfJson
  dsimp only
  cases h : readFields s.fields (renamed s.fields entries) with
  | ok fields =>
    have hnames : fields.map (·.1) = s.fields.map (·.1) := by
      rw [readFields_eq_mapM] at h
      refine Outcome.map_eq_of_forall₂ (Outcome.mapM_eq_ok.mp h) fun f g hfield => ?_
      obtain ⟨v, -, rfl⟩ := Outcome.map_eq_ok.mp hfield
      rfl
    exact iff_of_true (Or.inl ⟨_, rfl, fields, rfl, hnames⟩) (not_broken_ok _)
  | error e =>
    dsimp only
    rw [settles_error, broken_error]
    cases e.isInvalid with
    | true => exact iff_of_true rfl Bool.noConfusion
    | false => exact iff_of_false Bool.false_ne_true fun h => h rfl

theorem decode_settles_iff (s : Schema) (data : Bytes) :
    Settles s (decode (.record s) data) ↔ ¬ Overtaxes s data := by
  unfold Overtaxes decode decodeJson
  rw [← Json.readOctets_tooManyDigits]
  cases Json.readOctets data with
  | error fault =>
    cases fault with
    | malformed =>
      refine iff_of_true (settles_error.mpr rfl) ?_
      rintro (⟨n, h⟩ | ⟨entries, h, -⟩)
      · cases h
      · cases h
    | tooManyDigits n =>
      exact iff_of_false (fun h => Bool.false_ne_true (settles_error.mp h))
        fun h => h (Or.inl ⟨n, rfl⟩)
  | ok j =>
    show Settles s (recordOfJson s j) ↔ _
    by_cases hmap : ∃ entries, j = .map entries
    · obtain ⟨entries, rfl⟩ := hmap
      rw [settles_recordOfJson, not_iff_not]
      constructor
      · exact fun h => Or.inr ⟨entries, rfl, h⟩
      · rintro (⟨n, h⟩ | ⟨entries', h, hbreaks⟩)
        · cases h
        · cases h
          exact hbreaks
    · have hobject : recordOfJson s j = .error (.notObject s.type) := by
        cases j with
        | map entries => exact absurd ⟨entries, rfl⟩ hmap
        | _ => rfl
      rw [hobject]
      refine iff_of_true (settles_error.mpr rfl) ?_
      rintro (⟨n, h⟩ | ⟨entries, h, -⟩)
      · cases h
      · exact hmap ⟨entries, Except.ok.inj h⟩

/-- An empty body gives a record with every field unset. -/
theorem decodeBody_memory (s : Schema) (data : Bytes) (length : Option Int)
    (consumed taken : Bool) :
    decodeBody (.record s) ⟨.memory data, length, consumed, taken⟩ =
      if data.isEmpty then .ok s.unset else decode (.record s) data := by
  cases data with
  | nil => rfl
  | cons b r =>
    have hoctets : [b :: r].flatten = b :: r := by simp
    unfold decodeBody Body.read Body.drain Body.memoryChunks
    simp only [List.isEmpty_cons, Bool.false_eq_true, if_false, hoctets]
    rfl

/-- Decoding a structure, from octets or from a body in memory, ends in a record or a protocol
error, unless the octets overtax a reader. -/
theorem settles_iff (s : Schema) (data : Bytes) (length : Option Int) (consumed taken : Bool) :
    (Settles s (decode (.record s) data) ↔ ¬ Overtaxes s data) ∧
      (Settles s (decodeBody (.record s) ⟨.memory data, length, consumed, taken⟩) ↔
        ¬ Overtaxes s data) := by
  refine ⟨decode_settles_iff s data, ?_⟩
  rw [decodeBody_memory]
  cases data with
  | nil =>
    have hnames : (s.fields.map fun f => (f.1, Value.null)).map (·.1) = s.fields.map (·.1) := by
      rw [List.map_map]
      rfl
    refine iff_of_true (Or.inl ⟨_, rfl, _, rfl, hnames⟩) ?_
    unfold Overtaxes
    rw [← Json.readOctets_tooManyDigits, Json.readOctets_nil]
    rintro (⟨n, h⟩ | ⟨entries, h, -⟩)
    · cases h
    · cases h
  | cons b r => exact decode_settles_iff s (b :: r)

/-- A whole number beyond 64 bits breaks a timestamp, a date in year 1 breaks it when its offset
takes it out of the calendar, and a number breaks a record. -/
theorem not_every_body_settles :
    ¬ Settles Sample.sample (decode (.record Sample.sample) (Utf8.ofString
      (Json.map [("Created", .whole 100000000000000000000)]).compact)) ∧
    ¬ Settles Sample.sample (decode (.record Sample.sample) (Utf8.ofString
      (Json.map [("Updated", .text "0001-01-01T00:00:00+01:00")]).compact)) ∧
    ¬ Settles Sample.sample (decode (.record Sample.sample) (Utf8.ofString
      (Json.map [("Owner", .whole 1)]).compact)) := by
  have hbroken : ∀ entries, (Json.map entries).isExact = true →
      Breaks (.record Sample.sample.type Sample.sample.fields) (.map entries) →
      ¬ Settles Sample.sample (decode (.record Sample.sample)
        (Utf8.ofString (Json.map entries).compact)) := by
    intro entries hexact hbreaks
    rw [decode_settles_iff, not_not]
    exact Or.inr ⟨entries, Json.readOctets_of_isExact hexact, hbreaks⟩
  refine ⟨hbroken _ rfl ?_, hbroken _ rfl ?_, hbroken _ rfl ?_⟩
  · rw [breaks_map_iff]
    refine ⟨Sample.sample.fields.take 3, _, _, rfl, ?_, .seconds (Or.inr (Or.inl (by decide)))⟩
    exact List.forall_mem_cons.mpr ⟨⟨_, rfl⟩, List.forall_mem_cons.mpr ⟨⟨_, rfl⟩,
      List.forall_mem_cons.mpr ⟨⟨_, rfl⟩, List.forall_mem_nil _⟩⟩⟩
  · rw [breaks_map_iff]
    refine ⟨Sample.sample.fields.take 4, _, _, rfl, ?_, .instant ?_⟩
    · exact List.forall_mem_cons.mpr ⟨⟨_, rfl⟩, List.forall_mem_cons.mpr ⟨⟨_, rfl⟩,
        List.forall_mem_cons.mpr ⟨⟨_, rfl⟩, List.forall_mem_cons.mpr ⟨⟨_, rfl⟩,
          List.forall_mem_nil _⟩⟩⟩⟩
    · exact ⟨by decide +kernel, ⟨0, some 3600000000⟩, by decide +kernel, rfl⟩
  · exact (readField_broken _ _).mp ⟨_, rfl, rfl⟩

end Codec

end Wireform
