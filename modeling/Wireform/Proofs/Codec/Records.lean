import Wireform.Codec.Sample
import Wireform.Proofs.Base64
import Wireform.Proofs.Codec.Answers
import Wireform.Proofs.Codec.Documents
import Wireform.Proofs.Entries
import Wireform.Proofs.Time.RoundTrip

/-
  Wireform codec, records: a record is read back from what was written, whatever fields are set.
  Each kind of field has a writer and a reader that undo each other. Nulls are left out of an
  outermost record only, and reading puts them back in either case.
-/

namespace Wireform

/-! ## Values in UTC -/

mutual

/-- The value with its moments on clocks that show UTC. -/
def Value.inUtc : Value → Value
  | .moment m => .moment (m.utc?.getD m)
  | .record type fields => .record type (Value.fieldsInUtc fields)
  | v => v

def Value.fieldsInUtc : List (String × Value) → List (String × Value)
  | [] => []
  | (name, v) :: r => (name, v.inUtc) :: Value.fieldsInUtc r

end

theorem Value.fieldsInUtc_eq_map (fields : List (String × Value)) :
    Value.fieldsInUtc fields = fields.map fun f => (f.1, f.2.inUtc) := by
  induction fields with
  | nil => rfl
  | cons f r ih =>
    rw [Value.fieldsInUtc, ih]
    rfl

namespace Codec

/-! ## What fields can hold -/

/-- Fields that names and wire names tell apart. -/
structure Distinct (fields : List (String × String × FieldKind)) : Prop where
  names : (fields.map (·.1)).Nodup
  wires : (fields.map (·.2.1)).Nodup

mutual

/-- What a field of a kind can hold, set or unset. Whole numbers are short enough to be written, a
date-time has whole milliseconds and four digits for its year in UTC, and seconds since the epoch
are whole. -/
inductive Fits (schemas : List Schema) : FieldKind → Value → Prop
  | unset (kind : FieldKind) : Fits schemas kind .null
  | text (s : String) : Fits schemas .text (.text s)
  | whole {n : Int} (h : (Text.ofNat n.natAbs).length ≤ Whole.maxDigits) :
    Fits schemas .whole (.whole n)
  | texts (xs : List String) : Fits schemas .texts (.list (xs.map .text))
  | seconds {m u : Moment} (hutc : m.utc? = some u)
    (hfull : u.reading % Moment.microsPerSecond = 0) :
    Fits schemas (.timestamp .epochSeconds) (.moment m)
  | dateTime {m u : Moment} (hutc : m.utc? = some u) (hmillis : u.reading % 1000 = 0)
    (hyear : 1000 ≤ u.date.year) : Fits schemas (.timestamp .dateTime) (.moment m)
  | blob (b : Bytes) : Fits schemas .blob (.blob b)
  | member {e : Enumeration} {name s : String}
    (h : e.ofText? s = some (.member e.name name (.text s))) :
    Fits schemas (.member e) (.member e.name name (.text s))
  | record {type : String} {fields : List (String × String × FieldKind)}
    {values : List (String × Value)} (hschema : fieldsOf schemas type = fields)
    (hdistinct : Distinct fields) (h : FitsFields schemas fields values) :
    Fits schemas (.record type fields) (.record type values)

/-- The fields of a record in order, each with what it holds. -/
inductive FitsFields (schemas : List Schema) :
    List (String × String × FieldKind) → List (String × Value) → Prop
  | nil : FitsFields schemas [] []
  | cons (name wire : String) {kind : FieldKind} {v : Value}
    {fields : List (String × String × FieldKind)} {values : List (String × Value)}
    (h : Fits schemas kind v) (hrest : FitsFields schemas fields values) :
    FitsFields schemas ((name, wire, kind) :: fields) ((name, v) :: values)

end

/-! ## One field -/

/-- The value of a field as it stands in an object. -/
def writeField (schemas : List Schema) : FieldKind → Value → Except WriteError Value
  | .timestamp format, v => timestampValue format v
  | .blob, v => blobValue v
  | _, v => unfold schemas v

/-- A field with what becomes of its value: how it stands in an object, the document that is
written, and that the value is read from it. -/
structure Carried (schemas : List Schema) where
  name : String
  wire : String
  kind : FieldKind
  value : Value
  unfolded : Value
  document : Json
  writes : writeField schemas kind value = .ok unfolded
  documents : unfolded.toJson = .ok document
  exact : document.isExact = true
  null : unfolded.isNull = document.isNull
  reads : readField kind document = .ok value.inUtc

namespace Carried

variable {schemas : List Schema}

def field (c : Carried schemas) : String × String × FieldKind := (c.name, c.wire, c.kind)

def entry (c : Carried schemas) : String × Value := (c.name, c.value)

/-- An entry of the object that is written. -/
def wired (c : Carried schemas) : String × Json := (c.wire, c.document)

/-! ## Fields of a record -/

theorem unfoldFields_entries {kinds : List (String × String × FieldKind)}
    (cs : List (Carried schemas))
    (hkinds : ∀ c ∈ cs, Entries.get? c.name kinds = some (c.wire, c.kind)) :
    unfoldFields schemas kinds (cs.map entry) = .ok (cs.map fun c => (c.wire, c.unfolded)) := by
  induction cs with
  | nil => rfl
  | cons c cs ih =>
    rw [List.forall_mem_cons] at hkinds
    obtain ⟨name, wire, kind, value, unfolded, document, hwrites, _, _, _, _⟩ := c
    rw [List.map_cons, entry, unfoldFields, hkinds.1, ih hkinds.2]
    cases kind with
    | timestamp format =>
      have hvalue : timestampValue format value = .ok unfolded := hwrites
      dsimp only
      rw [hvalue]
      rfl
    | blob =>
      have hvalue : blobValue value = .ok unfolded := hwrites
      dsimp only
      rw [hvalue]
      rfl
    | _ =>
      have hvalue : unfold schemas value = .ok unfolded := hwrites
      dsimp only
      rw [hvalue]
      rfl

theorem fieldsToJson_unfolded (cs : List (Carried schemas)) :
    Value.fieldsToJson (cs.map fun c => (c.wire, c.unfolded)) = .ok (cs.map wired) := by
  induction cs with
  | nil => rfl
  | cons c cs ih =>
    rw [List.map_cons, Value.fieldsToJson, c.documents, ih]
    rfl

theorem fieldsExact_wired {cs : List (Carried schemas)} (h : (cs.map wire).Nodup) :
    Json.fieldsExact (cs.map wired) = true := by
  induction cs with
  | nil => rfl
  | cons c cs ih =>
    rw [List.map_cons, List.nodup_cons] at h
    have hkeys : Entries.keys (cs.map wired) = cs.map wire := by
      unfold Entries.keys
      rw [List.map_map]
      rfl
    rw [List.map_cons, wired, Json.fieldsExact, hkeys, c.exact, ih h.2]
    simpa using h.1

theorem setFields_unfolded (cs : List (Carried schemas)) :
    setFields (cs.map fun c => (c.wire, c.unfolded)) =
      (cs.filter fun c => !c.document.isNull).map fun c => (c.wire, c.unfolded) := by
  unfold setFields
  rw [List.filter_map]
  congr 1
  refine List.filter_congr fun c _ => ?_
  exact congrArg Bool.not c.null

section

variable {cs : List (Carried schemas)} (hdistinct : Distinct (cs.map field))
include hdistinct

theorem nodup_names : (cs.map name).Nodup := by
  have h := hdistinct.names
  rwa [List.map_map] at h

theorem nodup_wires : (cs.map wire).Nodup := by
  have h := hdistinct.wires
  rwa [List.map_map] at h

/-- Under the wire names stand the fields that they belong to. -/
theorem renamed_wired (keep : Carried schemas → Bool) :
    renamed (cs.map field) ((cs.filter keep).map wired) =
      (cs.filter keep).map fun c => (c.name, c.document) := by
  have hnames : (Entries.keys ((cs.filter keep).map fun c => (c.name, c.document))).Nodup := by
    unfold Entries.keys
    rw [List.map_map]
    exact (nodup_names hdistinct).sublist (List.filter_sublist.map name)
  unfold renamed
  rw [← Entries.ofPairs_of_nodup hnames, List.map_map]
  congr 1
  refine List.map_congr_left fun c hc => ?_
  have hmem : c.field ∈ cs.map field := List.mem_map_of_mem (List.mem_of_mem_filter hc)
  have hfind := find?_of_nodup hdistinct.wires hmem
  show ((((cs.map field).find? fun f => f.2.1 = c.wire).map (·.1)).getD c.wire, c.document) = _
  rw [show c.wire = c.field.2.1 from rfl, hfind]
  rfl

/-- Wherever the entries that are left out are null, all fields are read. -/
theorem readFields_wired (keep : Carried schemas → Bool)
    (hkeep : ∀ c ∈ cs, keep c = false → c.document = .null) :
    readFields (cs.map field) (renamed (cs.map field) ((cs.filter keep).map wired)) =
      .ok (cs.map fun c => (c.name, c.value.inUtc)) := by
  have hentry : ∀ c ∈ cs, Codec.entry ((cs.filter keep).map fun c => (c.name, c.document)) c.field =
      c.document := by
    intro c hc
    have hkeys : Entries.keys ((cs.filter keep).map fun c => (c.name, c.document)) =
        (cs.filter keep).map name := by
      unfold Entries.keys
      rw [List.map_map]
      rfl
    unfold Codec.entry
    cases hkept : keep c with
    | true =>
      have hmem : (c.name, c.document) ∈ (cs.filter keep).map fun c => (c.name, c.document) :=
        List.mem_map_of_mem (f := fun c => (c.name, c.document)) (List.mem_filter.mpr ⟨hc, hkept⟩)
      have hnodup : (Entries.keys ((cs.filter keep).map fun c => (c.name, c.document))).Nodup := by
        rw [hkeys]
        exact (nodup_names hdistinct).sublist (List.filter_sublist.map name)
      show (Entries.get? c.name _).getD Json.null = _
      rw [Entries.get?_of_mem hnodup hmem]
      rfl
    | false =>
      have hnone : c.name ∉ Entries.keys ((cs.filter keep).map fun c => (c.name, c.document)) := by
        rw [hkeys]
        intro hmem
        obtain ⟨d, hd, hname⟩ := List.mem_map.mp hmem
        obtain ⟨hd, hdkept⟩ := List.mem_filter.mp hd
        rw [List.inj_on_of_nodup_map (nodup_names hdistinct) hd hc hname, hkept] at hdkept
        cases hdkept
      show (Entries.get? c.name _).getD Json.null = _
      rw [Entries.get?_eq_none hnone, hkeep c hc hkept]
      rfl
  rw [renamed_wired hdistinct, readFields_eq_mapM, Outcome.mapM_eq_ok, List.forall₂_map_left_iff,
    List.forall₂_map_right_iff, List.forall₂_same]
  intro c hc
  rw [hentry c hc]
  show (readField c.kind c.document).map _ = _
  rw [c.reads]
  rfl

end

end Carried

/-! ## Writing and reading fields -/

section

variable (schemas : List Schema)

theorem unfoldItems_texts (xs : List String) :
    unfoldItems schemas (xs.map .text) = .ok (xs.map .text) := by
  induction xs with
  | nil => rfl
  | cons x xs ih =>
    rw [List.map_cons, unfoldItems, ih]
    rfl

theorem listToJson_texts (xs : List String) :
    Value.listToJson (xs.map .text) = .ok (xs.map .text) := by
  induction xs with
  | nil => rfl
  | cons x xs ih =>
    rw [List.map_cons, Value.listToJson, ih]
    rfl

theorem itemsExact_texts (xs : List String) : Json.itemsExact (xs.map .text) = true := by
  induction xs with
  | nil => rfl
  | cons x xs ih => exact ih

/-- A field with what becomes of its value. -/
def Carries (name wire : String) (kind : FieldKind) (v : Value) : Prop :=
  ∃ c : Carried schemas, c.field = (name, wire, kind) ∧ c.value = v

variable {schemas} {name wire : String}

theorem carries_unset (kind : FieldKind) : Carries schemas name wire kind .null := by
  have hwrites : writeField schemas kind .null = .ok .null := by
    cases kind <;> rfl
  have hreads : readField kind .null = .ok .null := by
    rw [readField]
  exact ⟨⟨name, wire, kind, .null, .null, .null, hwrites, rfl, rfl, rfl, hreads⟩, rfl, rfl⟩

theorem carries_whole {n : Int} (h : (Text.ofNat n.natAbs).length ≤ Whole.maxDigits) :
    Carries schemas name wire .whole (.whole n) := by
  have hdocument : (Value.whole n).toJson = .ok (.whole n) := by
    rw [Value.toJson, if_pos (Text.isSome_write?_iff.mpr h)]
  exact ⟨⟨name, wire, .whole, .whole n, .whole n, .whole n, rfl, hdocument, decide_eq_true h, rfl,
    rfl⟩, rfl, rfl⟩

theorem carries_texts (xs : List String) :
    Carries schemas name wire .texts (.list (xs.map .text)) := by
  have hwrites : writeField schemas .texts (.list (xs.map .text)) = .ok (.list (xs.map .text)) := by
    show unfold schemas (.list (xs.map .text)) = _
    rw [unfold, unfoldItems_texts]
    rfl
  have hdocument : (Value.list (xs.map .text)).toJson = .ok (.list (xs.map .text)) := by
    rw [Value.toJson, listToJson_texts]
    rfl
  have hreads : readField .texts (.list (xs.map .text)) = .ok (.list (xs.map .text)) := by
    rw [readField, readTexts, List.map_map]
    · rfl
    · exact nofun
  exact ⟨⟨name, wire, .texts, _, _, .list (xs.map .text), hwrites, hdocument, itemsExact_texts xs,
    rfl, hreads⟩, rfl, rfl⟩

theorem timestampText_of_utc? {m u : Moment} (h : m.utc? = some u) (format : TimestampFormat) :
    timestampText format (.moment m) = .ok (String.ofList (u.textIn format)) := by
  unfold timestampText Value.timestampText
  dsimp only
  rw [Timestamp.write?_of_utc? h]

theorem inUtc_moment {m u : Moment} (h : m.utc? = some u) :
    (Value.moment m).inUtc = .moment u := by
  rw [Value.inUtc, h]
  rfl

theorem carries_seconds {m u : Moment} (hutc : m.utc? = some u)
    (hfull : u.reading % Moment.microsPerSecond = 0) :
    Carries schemas name wire (.timestamp .epochSeconds) (.moment m) := by
  have hu := Moment.isUtc_of_utc? hutc
  obtain ⟨s, hs, hreading⟩ := Moment.exists_seconds hu hfull
  have hsmall : s.natAbs < 2 ^ 53 := Nat.lt_trans hs (by decide)
  have hwrites : writeField schemas (.timestamp .epochSeconds) (.moment m) =
      .ok (.real (.ofWhole (decide (s < 0)) s.natAbs)) := by
    show (timestampText .epochSeconds (.moment m) >>= fun text =>
      pure (Value.real ((Real.read text.toList).getD .nan))) = _
    rw [timestampText_of_utc? hutc, Moment.textIn, Moment.epochText_of_full hs hreading]
    show Except.ok (Value.real ((Real.read (String.ofList (Whole.digits s)).toList).getD .nan)) = _
    rw [String.toList_ofList, Double.read_digits hsmall]
    rfl
  have hexact : (Json.real (.ofWhole (decide (s < 0)) s.natAbs)).isExact = true :=
    Double.isSmallWhole_iff.mpr ⟨_, _, hs, rfl⟩
  have hreads : readField (.timestamp .epochSeconds)
      (.real (.ofWhole (decide (s < 0)) s.natAbs)) = .ok (.moment u) := by
    rw [readField, Value.ofJson, readTimestamp, Moment.ofSeconds_of_full hu hs hreading]
    · rfl
    · exact nofun
  rw [← inUtc_moment hutc] at hreads
  exact ⟨⟨name, wire, _, _, _, .real (.ofWhole (decide (s < 0)) s.natAbs), hwrites, rfl, hexact,
    rfl, hreads⟩, rfl, rfl⟩

theorem carries_dateTime {m u : Moment} (hutc : m.utc? = some u) (hmillis : u.reading % 1000 = 0)
    (hyear : 1000 ≤ u.date.year) :
    Carries schemas name wire (.timestamp .dateTime) (.moment m) := by
  have hu := Moment.isUtc_of_utc? hutc
  have hwrites : writeField schemas (.timestamp .dateTime) (.moment m) =
      .ok (.text (String.ofList u.dateTimeText)) := by
    show (timestampText .dateTime (.moment m) >>= fun text => pure (Value.text text)) = _
    rw [timestampText_of_utc? hutc]
    rfl
  have hkept : u.toMillis = u := by
    unfold Moment.toMillis
    rw [hmillis, Int.sub_zero]
  have hreads : readField (.timestamp .dateTime) (.text (String.ofList u.dateTimeText)) =
      .ok (.moment u) := by
    rw [readField, Value.ofJson, readTimestamp, Timestamp.read_dateTimeText hu hyear, hkept]
    · rfl
    · exact nofun
  rw [← inUtc_moment hutc] at hreads
  exact ⟨⟨name, wire, _, _, _, .text (String.ofList u.dateTimeText), hwrites, rfl, rfl, rfl,
    hreads⟩, rfl, rfl⟩

theorem carries_blob (b : Bytes) : Carries schemas name wire .blob (.blob b) := by
  have hreads : readField .blob (.text (Base64.text b)) = .ok (.blob b) := by
    rw [readField, Value.ofJson, readBlob, Scalar.readBase64_text]
    · rfl
    · exact nofun
  have hwrites : writeField schemas .blob (.blob b) = .ok (.text (Base64.text b)) := rfl
  exact ⟨⟨name, wire, .blob, .blob b, _, .text (Base64.text b), hwrites, rfl, rfl, rfl, hreads⟩,
    rfl, rfl⟩

theorem carries_member {e : Enumeration} {member s : String}
    (h : e.ofText? s = some (.member e.name member (.text s))) :
    Carries schemas name wire (.member e) (.member e.name member (.text s)) := by
  have hreads : readField (.member e) (.text s) = .ok (.member e.name member (.text s)) := by
    show (e.read true s).mapError _ = _
    unfold Enumeration.read
    rw [h]
    rfl
  exact ⟨⟨name, wire, .member e, .member e.name member (.text s), .member e.name member (.text s),
    .text s, rfl, rfl, rfl, rfl, hreads⟩, rfl, rfl⟩

theorem get?_field {cs : List (Carried schemas)} (hdistinct : Distinct (cs.map Carried.field)) :
    ∀ c ∈ cs, Entries.get? c.name (cs.map Carried.field) = some (c.wire, c.kind) := by
  intro c hc
  have hnodup : (Entries.keys (cs.map Carried.field)).Nodup := hdistinct.names
  exact Entries.get?_of_mem hnodup (List.mem_map_of_mem (f := Carried.field) hc)

theorem unfold_record {type : String} {cs : List (Carried schemas)}
    (hschema : fieldsOf schemas type = cs.map Carried.field)
    (hdistinct : Distinct (cs.map Carried.field)) :
    unfold schemas (.record type (cs.map Carried.entry)) =
      .ok (.map (cs.map fun c => (c.wire, c.unfolded))) := by
  rw [unfold, hschema, Carried.unfoldFields_entries cs (get?_field hdistinct)]
  rfl

theorem inUtc_record (type : String) (cs : List (Carried schemas)) :
    (Value.record type (cs.map Carried.entry)).inUtc =
      .record type (cs.map fun c => (c.name, c.value.inUtc)) := by
  rw [Value.inUtc, Value.fieldsInUtc_eq_map, List.map_map]
  rfl

theorem carries_record {type : String} {cs : List (Carried schemas)}
    (hschema : fieldsOf schemas type = cs.map Carried.field)
    (hdistinct : Distinct (cs.map Carried.field)) :
    Carries schemas name wire (.record type (cs.map Carried.field))
      (.record type (cs.map Carried.entry)) := by
  have hwrites : writeField schemas (.record type (cs.map Carried.field))
      (.record type (cs.map Carried.entry)) = .ok (.map (cs.map fun c => (c.wire, c.unfolded))) :=
    unfold_record hschema hdistinct
  have hdocument : (Value.map (cs.map fun c => (c.wire, c.unfolded))).toJson =
      .ok (.map (cs.map Carried.wired)) := by
    rw [Value.toJson, Carried.fieldsToJson_unfolded]
    rfl
  have hexact : (Json.map (cs.map Carried.wired)).isExact = true :=
    Carried.fieldsExact_wired (Carried.nodup_wires hdistinct)
  have hreads : readField (.record type (cs.map Carried.field)) (.map (cs.map Carried.wired)) =
      .ok (Value.record type (cs.map Carried.entry)).inUtc := by
    have hall := Carried.readFields_wired hdistinct (fun _ => true) fun _ _ h => nomatch h
    rw [List.filter_true] at hall
    rw [readField, hall, inUtc_record]
    rfl
  exact ⟨⟨name, wire, .record type (cs.map Carried.field), _, _, _, hwrites, hdocument, hexact, rfl,
    hreads⟩, rfl, rfl⟩

end

section

variable {schemas : List Schema}

mutual

/-- Whatever fits a field is written and read back. -/
theorem carries_of_fits {kind : FieldKind} {v : Value} (h : Fits schemas kind v)
    (name wire : String) : Carries schemas name wire kind v := by
  cases h with
  | unset => exact carries_unset kind
  | text s =>
    exact ⟨⟨name, wire, .text, .text s, .text s, .text s, rfl, rfl, rfl, rfl, rfl⟩, rfl, rfl⟩
  | whole h => exact carries_whole h
  | texts xs => exact carries_texts xs
  | seconds hutc hfull => exact carries_seconds hutc hfull
  | dateTime hutc hmillis hyear => exact carries_dateTime hutc hmillis hyear
  | blob b => exact carries_blob b
  | member h => exact carries_member h
  | record hschema hdistinct h =>
    obtain ⟨cs, rfl, rfl⟩ := exists_carried h
    exact carries_record hschema hdistinct

theorem exists_carried {fields : List (String × String × FieldKind)}
    {values : List (String × Value)} (h : FitsFields schemas fields values) :
    ∃ cs : List (Carried schemas), cs.map Carried.field = fields ∧
      cs.map Carried.entry = values := by
  cases h with
  | nil => exact ⟨[], rfl, rfl⟩
  | cons name wire h hrest =>
    obtain ⟨c, hfield, hvalue⟩ := carries_of_fits h name wire
    obtain ⟨cs, rfl, rfl⟩ := exists_carried hrest
    refine ⟨c :: cs, ?_, ?_⟩
    · rw [List.map_cons, hfield]
    · have hname : c.name = name := congrArg (·.1) hfield
      rw [List.map_cons, Carried.entry, hname, hvalue]

end

/-! ## Records -/

/-- Fields that are unset still fit. -/
theorem FitsFields.mapUnset {fields : List (String × String × FieldKind)}
    {values : List (String × Value)} (h : FitsFields schemas fields values) (p : String → Bool) :
    FitsFields schemas fields (values.map fun f => (f.1, if p f.1 then .null else f.2)) := by
  cases h with
  | nil => exact .nil
  | cons name wire h hrest =>
    refine .cons name wire ?_ (hrest.mapUnset p)
    dsimp only
    split
    · exact .unset _
    · exact h

theorem decode_record_compact {s : Schema} {j : Json} (hj : j.isExact = true) :
    decode (.record s) (Utf8.ofString j.compact) = recordOfJson s j := by
  unfold decode decodeJson
  rw [Json.readOctets_of_isExact hj]
  rfl

/-- A record is read back with its fields in `members`, and with the others unset. -/
theorem record_survives {type : String} {fields : List (String × String × FieldKind)}
    {values : List (String × Value)} (hschema : fieldsOf schemas type = fields)
    (hdistinct : Distinct fields) (h : FitsFields schemas fields values)
    (members : Option (List String)) :
    ∃ text, encode schemas members (.record type values) = .ok text ∧
      decode (.record ⟨type, fields⟩) (Utf8.ofString text) = .ok (.record type (values.map fun f =>
        (f.1, if members.all fun ms => ms.contains f.1 then f.2.inUtc else .null))) := by
  obtain ⟨cs, rfl, hvalues⟩ :=
    exists_carried (h.mapUnset fun name => members.any fun ms => !ms.contains name)
  have houter : outermost schemas (restrict members (.record type values)) =
      .ok (.map (cs.map fun c => (c.wire, c.unfolded))) := by
    rw [restrict, ← hvalues]
    exact unfold_record hschema hdistinct
  have hjson : (Value.map (setFields (cs.map fun c => (c.wire, c.unfolded)))).toJson =
      .ok (.map ((cs.filter fun c => !c.document.isNull).map Carried.wired)) := by
    rw [Carried.setFields_unfolded, Value.toJson, Carried.fieldsToJson_unfolded]
    rfl
  have hexact : (Json.map ((cs.filter fun c => !c.document.isNull).map Carried.wired)).isExact =
      true :=
    Carried.fieldsExact_wired
      ((Carried.nodup_wires hdistinct).sublist (List.filter_sublist.map Carried.wire))
  have hkeep : ∀ c ∈ cs, (!c.document.isNull) = false → c.document = .null := by
    intro c _ hnull
    cases hdocument : c.document with
    | null => rfl
    | _ =>
      rw [hdocument] at hnull
      cases hnull
  have hread := Carried.readFields_wired hdistinct _ hkeep
  have hback : (cs.map fun c => (c.name, c.value.inUtc)) = values.map fun f =>
      (f.1, if members.all fun ms => ms.contains f.1 then f.2.inUtc else .null) := by
    have hentries : (cs.map fun c => (c.name, c.value.inUtc)) =
        (cs.map Carried.entry).map fun f => (f.1, f.2.inUtc) := by
      rw [List.map_map]
      rfl
    rw [hentries, hvalues, List.map_map]
    refine List.map_congr_left fun f _ => ?_
    cases members with
    | none => rfl
    | some ms =>
      show (f.1, (if !ms.contains f.1 then Value.null else f.2).inUtc) =
        (f.1, if ms.contains f.1 then f.2.inUtc else Value.null)
      cases ms.contains f.1 <;> rfl
  have hwrite := encode_of_map houter
  rw [hjson] at hwrite
  refine ⟨_, hwrite, ?_⟩
  rw [decode_record_compact hexact]
  unfold recordOfJson
  dsimp only
  rw [hread, hback]

end

/-! ## The sample schema -/

/-- A record of the sample schema is read back, whatever is set in it. -/
theorem sample_survives {values : List (String × Value)}
    (h : FitsFields Sample.schemas Sample.sample.fields values) (members : Option (List String)) :
    ∃ text, encode Sample.schemas members (.record "Sample" values) = .ok text ∧
      decode (.record Sample.sample) (Utf8.ofString text) = .ok (.record "Sample"
        (values.map fun f =>
          (f.1, if members.all fun ms => ms.contains f.1 then f.2.inUtc else .null))) :=
  record_survives rfl ⟨by decide, by decide⟩ h members

/-- A sample with every field set, of which the tags and the color are left out. -/
theorem sample_survives_full :
    let moment : Moment := ⟨63035600400000000, some 3600000000⟩
    let red : Value := .member "Color" "RED" (.text "red")
    let owner : Value := .record "Owner" [("id", .text "7"), ("display_name", .null)]
    let values : List (String × Value) := [("name", .text "Zoë"), ("count", .whole (-12)),
      ("tags", .list [.text "a", .text ""]), ("created", .moment moment),
      ("updated", .moment moment), ("data", .blob [0, 255]), ("color", red), ("owner", owner)]
    FitsFields Sample.schemas Sample.sample.fields values ∧
      ∃ text, encode Sample.schemas (some ["name", "count", "created", "updated", "data", "owner"])
          (.record "Sample" values) = .ok text ∧
        decode (.record Sample.sample) (Utf8.ofString text) = .ok (.record "Sample" [
          ("name", .text "Zoë"), ("count", .whole (-12)), ("tags", .null),
          ("created", .moment ⟨63035596800000000, some 0⟩),
          ("updated", .moment ⟨63035596800000000, some 0⟩), ("data", .blob [0, 255]),
          ("color", .null), ("owner", owner)]) := by
  have hutc : Moment.utc? ⟨63035600400000000, some 3600000000⟩ =
      some ⟨63035596800000000, some 0⟩ := rfl
  have howner : FitsFields Sample.schemas Sample.ownerFields
      [("id", .text "7"), ("display_name", .null)] :=
    .cons _ _ (.text "7") (.cons _ _ (.unset .text) .nil)
  have hfits : FitsFields Sample.schemas Sample.sample.fields [("name", .text "Zoë"),
      ("count", .whole (-12)), ("tags", .list [.text "a", .text ""]),
      ("created", .moment ⟨63035600400000000, some 3600000000⟩),
      ("updated", .moment ⟨63035600400000000, some 3600000000⟩), ("data", .blob [0, 255]),
      ("color", .member "Color" "RED" (.text "red")),
      ("owner", .record "Owner" [("id", .text "7"), ("display_name", .null)])] :=
    .cons _ _ (.text _) (.cons _ _ (.whole (by decide)) (.cons _ _ (.texts ["a", ""])
      (.cons _ _ (.seconds hutc (by decide)) (.cons _ _ (.dateTime hutc (by decide) (by decide))
        (.cons _ _ (.blob _) (.cons _ _ (.member rfl)
          (.cons _ _ (.record rfl ⟨by decide, by decide⟩ howner) .nil)))))))
  refine ⟨hfits, ?_⟩
  obtain ⟨text, hwrite, hread⟩ := sample_survives hfits
    (some ["name", "count", "created", "updated", "data", "owner"])
  exact ⟨text, hwrite, hread⟩

/-- A record in which one field is set. -/
def holding (s : Schema) (field : String) (v : Value) : Value :=
  .record s.type (s.fields.map fun f => (f.1, if f.1 = field then v else .null))

/-- A count with more digits has no text. -/
theorem encode_long_count {n : Int} (h : Whole.maxDigits < (Text.ofNat n.natAbs).length) :
    encode Sample.schemas none (holding Sample.sample "count" (.whole n)) =
      .error .tooManyDigits := by
  have houter : outermost Sample.schemas (restrict none (holding Sample.sample "count" (.whole n)))
      = .ok (.map [("Name", .null), ("Count", .whole n), ("Tags", .null), ("Created", .null),
        ("Updated", .null), ("Data", .null), ("Color", .null), ("Owner", .null)]) := rfl
  have hset : setFields [("Name", .null), ("Count", .whole n), ("Tags", .null), ("Created", .null),
      ("Updated", .null), ("Data", .null), ("Color", .null), ("Owner", .null)] =
      [("Count", .whole n)] := rfl
  have hnone : ¬ (Whole.write? n).isSome = true := by
    rw [Text.isSome_write?_iff]
    exact Nat.not_le_of_lt h
  rw [encode_of_map houter, hset, Value.toJson, Value.fieldsToJson, Value.toJson, if_neg hnone]
  rfl

/-- A count with more digits and a moment past the calendar have no text, and a year in UTC with
three digits is not read. -/
theorem not_every_sample_survives :
    let late : Moment := ⟨315537897599000000, some (-3600000000)⟩
    let early : Moment := ⟨31525372800000000, some 3600000000⟩
    encode Sample.schemas none (holding Sample.sample "count" (.whole (10 ^ 4300 : Nat))) =
      .error .tooManyDigits ∧
    late.date = ⟨9999, 12, 31⟩ ∧ late.reading % Moment.microsPerSecond = 0 ∧
    encode Sample.schemas none (holding Sample.sample "updated" (.moment late)) =
      .error .momentOutOfRange ∧
    early.date = ⟨1000, 1, 1⟩ ∧ early.reading % Moment.microsPerSecond = 0 ∧
    ∃ text, encode Sample.schemas none (holding Sample.sample "updated" (.moment early)) =
      .ok text ∧ ∀ v, decode (.record Sample.sample) (Utf8.ofString text) ≠ .ok v := by
  have hlong : ∀ k, 0 < k → k < (Text.ofNat ((10 ^ k : Nat) : Int).natAbs).length := by
    intro k hk
    rw [Int.natAbs_natCast, ← Nat.not_le, Text.length_ofNat_le_iff hk]
    exact Nat.lt_irrefl _
  refine ⟨encode_long_count (hlong 4300 (by decide)), by decide +kernel, by decide, rfl,
    by decide +kernel, by decide,
    (Json.map [("Updated", .text "999-12-31T23:00:00Z")]).compact, ?_, fun v => ?_⟩
  · have houter : outermost Sample.schemas (restrict none
        (holding Sample.sample "updated" (.moment ⟨31525372800000000, some 3600000000⟩))) =
        .ok (.map [("Name", .null), ("Count", .null), ("Tags", .null), ("Created", .null),
          ("Updated", .text "999-12-31T23:00:00Z"), ("Data", .null), ("Color", .null),
          ("Owner", .null)]) := rfl
    rw [encode_of_map houter]
    rfl
  · have hread : (recordOfJson Sample.sample
        (.map [("Updated", .text "999-12-31T23:00:00Z")])).isOk = false := rfl
    rw [decode_record_compact rfl]
    intro h
    rw [h] at hread
    cases hread

end Codec

end Wireform
