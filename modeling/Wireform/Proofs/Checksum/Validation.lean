import Wireform.Checksum.Transfer
import Wireform.Proofs.Base64
import Wireform.Proofs.Body.Reading
import Wireform.Proofs.Checksum.Increments
import Wireform.Proofs.Checksum.PartCounts
import Wireform.Proofs.Outcome

/-
  Wireform checksums in transit: what the validation of a response does. `validate_body` says that a
  response is left alone unless there is a checksum to check it with, and that the body which then
  takes the place of its own delivers the same chunks and ends as the checksum says.
  `fails_on_unreadable` says which values of a checksum end the validation and which are passed over.
-/

namespace Wireform.ChecksumTransfer

variable {h : Headers} {modeled : List String} {a : Algorithm} {expected : Bytes}

/-! ## The checksum of a response -/

/-- An algorithm is modeled in any case and has a header, whose first value is `value`. -/
def Offers (h : Headers) (modeled : List String) (a : Algorithm) (value : String) : Prop :=
  (∃ m ∈ modeled, Text.lowered m = a.name) ∧ h.get? a.headerName = some value

/-- An algorithm is the first one by cost that the headers offer. -/
def Prefers (h : Headers) (modeled : List String) (a : Algorithm) (value : String) : Prop :=
  ∃ before after, Algorithm.byCost = before ++ a :: after ∧ Offers h modeled a value ∧
    ∀ b ∈ before, ∀ w, ¬Offers h modeled b w

/-- The first algorithm that is offered comes with `expected` in base64, as the checksum of a body
and not of parts. -/
def Checkable (h : Headers) (modeled : List String) (a : Algorithm) (expected : Bytes) : Prop :=
  ∃ value, Prefers h modeled a value ∧ isPartLevel value = false ∧
    Base64.decode value.toList = some expected

/-- The caller wants no validation that is not required. -/
def Skips (enabled : Bool) (config : ChecksumConfig) : Prop :=
  enabled = false ∧ config.response = .whenRequired

/-! ## The search for it -/

/-- What the headers give for one algorithm. -/
def offered (h : Headers) (modeled : List String) (a : Algorithm) : Option (Algorithm × String) :=
  if modeled.any fun m => Text.lowered m = a.name then (h.get? a.headerName).map (a, ·) else none

theorem firstHeader_eq : firstHeader h modeled = Algorithm.byCost.findSome? (offered h modeled) :=
  rfl

theorem offered_eq_some {b : Algorithm} {p : Algorithm × String} :
    offered h modeled b = some p ↔ p.1 = b ∧ Offers h modeled b p.2 := by
  obtain ⟨c, value⟩ := p
  have hany : (modeled.any fun m => Text.lowered m = b.name) = true ↔
      ∃ m ∈ modeled, Text.lowered m = b.name := by simp
  unfold offered Offers
  split
  · next hm =>
    rw [hany] at hm
    simp only [Option.map_eq_some_iff, Prod.mk.injEq]
    constructor
    · rintro ⟨w, hw, rfl, rfl⟩
      exact ⟨rfl, hm, hw⟩
    · rintro ⟨rfl, -, hw⟩
      exact ⟨value, hw, rfl, rfl⟩
  · next hm =>
    rw [hany] at hm
    exact ⟨nofun, fun he => absurd he.2.1 hm⟩

theorem offered_eq_none {b : Algorithm} :
    offered h modeled b = none ↔ ∀ w, ¬Offers h modeled b w := by
  rw [Option.eq_none_iff_forall_ne_some]
  constructor
  · intro hne w hw
    exact hne (b, w) (offered_eq_some.mpr ⟨rfl, hw⟩)
  · intro hno p hp
    exact hno p.2 (offered_eq_some.mp hp).2

/-- The search stops at the algorithm that is preferred. -/
theorem firstHeader_eq_some {value : String} :
    firstHeader h modeled = some (a, value) ↔ Prefers h modeled a value := by
  rw [firstHeader_eq, List.findSome?_eq_some_iff]
  constructor
  · rintro ⟨before, b, after, hsplit, hb, hbefore⟩
    obtain ⟨rfl, hoffers⟩ := offered_eq_some.mp hb
    exact ⟨before, after, hsplit, hoffers, fun c hc => offered_eq_none.mp (hbefore c hc)⟩
  · rintro ⟨before, after, hsplit, hoffers, hbefore⟩
    exact ⟨before, a, after, hsplit, offered_eq_some.mpr ⟨rfl, hoffers⟩,
      fun c hc => offered_eq_none.mpr (hbefore c hc)⟩

theorem not_prefers (hfirst : firstHeader h modeled = none) (a : Algorithm) (value : String) :
    ¬Prefers h modeled a value := by
  rw [← firstHeader_eq_some, hfirst]
  exact nofun

theorem prefers_iff {b : Algorithm} {found value : String}
    (hfirst : firstHeader h modeled = some (b, found)) :
    Prefers h modeled a value ↔ b = a ∧ found = value := by
  rw [← firstHeader_eq_some, hfirst, Option.some.injEq, Prod.mk.injEq]

theorem advertised_of_none (hfirst : firstHeader h modeled = none) :
    advertised h modeled = .ok (none, []) := by
  unfold advertised
  split
  · rfl
  · next b found hsome =>
    rw [hfirst] at hsome
    cases hsome

/-- The search goes by the value of the algorithm that is preferred. -/
theorem advertised_of_prefers {value : String} (hp : Prefers h modeled a value) :
    advertised h modeled =
      if isPartLevel value then .ok (none, [.partLevel value])
      else if !value.toList.all Text.isAscii then .error .notAscii
      else match Base64.decode value.toList with
        | some expected => .ok (some (a, expected), [])
        | none => .ok (none, [.notBase64]) := by
  have hfirst : firstHeader h modeled = some (a, value) := firstHeader_eq_some.mpr hp
  unfold advertised
  split
  · next hnone =>
    rw [hfirst] at hnone
    cases hnone
  · next b found hsome =>
    rw [hfirst] at hsome
    cases hsome
    rfl

/-- The text of a checksum is found as that checksum. -/
theorem advertised_headerValue {data : Bytes}
    (hp : Prefers h modeled a (Checksum.headerValue a data)) :
    advertised h modeled = .ok (some (a, (Checksum.ofBytes a data).digest), []) := by
  have hchars : (Checksum.headerValue a data).toList =
      Base64.encode (Checksum.ofBytes a data).digest := String.toList_ofList
  have hpart : isPartLevel (Checksum.headerValue a data) = false :=
    isPartLevel_of_not_mem (hchars ▸ Base64.dash_not_mem_encode _)
  have hascii : (Checksum.headerValue a data).toList.all Text.isAscii = true := by
    rw [hchars, List.all_eq_true]
    intro c hc
    have hvisible := (Base64.visible_of_mem_encode hc).2.1
    exact decide_eq_true (by omega)
  rw [advertised_of_prefers hp, hpart, hascii, hchars, Base64.decode_encode]
  rfl

/-- A checksum that is found is one that the headers can be checked with, and no other is. -/
theorem advertised_eq_ok {found : Option (Algorithm × Bytes)} {notices : List Notice}
    (hok : advertised h modeled = .ok (found, notices)) :
    found = some (a, expected) ↔ Checkable h modeled a expected := by
  cases hfirst : firstHeader h modeled with
  | none =>
    rw [advertised_of_none hfirst] at hok
    cases hok
    refine ⟨nofun, ?_⟩
    rintro ⟨value, hp, -⟩
    exact absurd hp (not_prefers hfirst a value)
  | some p =>
    obtain ⟨b, value⟩ := p
    have hchecks : Checkable h modeled a expected ↔
        b = a ∧ isPartLevel value = false ∧ Base64.decode value.toList = some expected := by
      constructor
      · rintro ⟨w, hp, hpart, hdecode⟩
        obtain ⟨hb, rfl⟩ := (prefers_iff hfirst).mp hp
        exact ⟨hb, hpart, hdecode⟩
      · rintro ⟨hb, hpart, hdecode⟩
        exact ⟨value, (prefers_iff hfirst).mpr ⟨hb, rfl⟩, hpart, hdecode⟩
    rw [advertised_of_prefers (firstHeader_eq_some.mp hfirst)] at hok
    rw [hchecks]
    split at hok
    · next hpart =>
      cases hok
      simp [hpart]
    · next hpart =>
      split at hok
      · cases hok
      · split at hok
        · next digest hdecode =>
          cases hok
          simp [hpart, hdecode]
        · next hdecode =>
          cases hok
          simp [hdecode]

/-- A value that the search fails on: it is no checksum of parts, and it has a character outside
ASCII. -/
def Unreadable (value : String) : Prop :=
  isPartLevel value = false ∧ ∃ c ∈ value.toList, Text.isAscii c = false

theorem not_isAscii_iff {value : String} :
    (!value.toList.all Text.isAscii) = true ↔ ∃ c ∈ value.toList, Text.isAscii c = false := by
  simp

theorem advertised_eq_error {e : ReadError} :
    advertised h modeled = .error e ↔
      e = .notAscii ∧ ∃ a value, Prefers h modeled a value ∧ Unreadable value := by
  constructor
  · intro he
    cases hfirst : firstHeader h modeled with
    | none =>
      rw [advertised_of_none hfirst] at he
      cases he
    | some p =>
      have hp : Prefers h modeled p.1 p.2 := firstHeader_eq_some.mp hfirst
      rw [advertised_of_prefers hp] at he
      split at he
      · cases he
      · next hpart =>
        split at he
        · next hforeign =>
          cases he
          exact ⟨rfl, p.1, p.2, hp, Bool.eq_false_iff.mpr hpart, not_isAscii_iff.mp hforeign⟩
        · split at he <;> cases he
  · rintro ⟨rfl, a, value, hp, hpart, hforeign⟩
    rw [advertised_of_prefers hp, if_neg (Bool.eq_false_iff.mp hpart),
      if_pos (not_isAscii_iff.mpr hforeign)]

/-- The search fails on characters outside ASCII only. -/
theorem exists_advertised_eq_ok :
    (∃ p, advertised h modeled = .ok p) ↔ ∀ a value, Prefers h modeled a value →
      isPartLevel value = true ∨ ∀ c ∈ value.toList, Text.isAscii c = true := by
  have hreadable : ∀ value : String, (isPartLevel value = true ∨
      ∀ c ∈ value.toList, Text.isAscii c = true) ↔ ¬Unreadable value := by
    simp [Unreadable, or_iff_not_imp_left]
  simp only [hreadable]
  constructor
  · rintro ⟨p, hp⟩ a value hprefers hunreadable
    rw [advertised_eq_error.mpr ⟨rfl, a, value, hprefers, hunreadable⟩] at hp
    cases hp
  · intro hall
    cases hadv : advertised h modeled with
    | ok p => exact ⟨p, rfl⟩
    | error e =>
      obtain ⟨-, a, value, hprefers, hunreadable⟩ := advertised_eq_error.mp hadv
      exact absurd hunreadable (hall a value hprefers)

/-! ## The body that is checked -/

/-- The body that takes the place of another delivers its chunks, and then fails if their checksum
is not the expected one. -/
theorem drain_checkedBody (a : Algorithm) (expected : Bytes) {inner : Body Source}
    (hinner : inner.Unread) :
    (checkedBody a expected inner).drain.1 =
      ⟨inner.chunks,
        if (Checksum.ofBytes a inner.chunks.flatten).digest = expected then none
        else some (.mismatch expected (Checksum.ofBytes a inner.chunks.flatten).digest)⟩ := by
  rw [checkedBody, Body.drain_ofDrain, Body.drain_of_unread hinner]
  unfold checked
  dsimp only
  rw [Checksum.foldl_update_new]

theorem drain_checkedBody_take (a : Algorithm) (expected : Bytes) {b : Body Source}
    (hb : b.Unread) :
    (checkedBody a expected b.take.1).drain.1 =
      ⟨b.chunks,
        if (Checksum.ofBytes a b.chunks.flatten).digest = expected then none
        else some (.mismatch expected (Checksum.ofBytes a b.chunks.flatten).digest)⟩ := by
  rw [drain_checkedBody a expected (Body.unread_take hb), Body.chunks_take]

/-! ## Validation -/

variable {r : Response} {enabled : Bool} {config : ChecksumConfig} {v : Validation}

theorem validate_of_skips (hskip : Skips enabled config) :
    validate r modeled enabled config = .ok ⟨r, none, []⟩ := by
  unfold validate
  rw [if_pos (by simp [hskip.1, hskip.2])]

theorem validate_of_not_skips (hskip : ¬Skips enabled config) :
    validate r modeled enabled config = (advertised r.headers modeled).bind fun p => .ok
      (match p.1 with
      | none => ⟨r, none, p.2⟩
      | some (a, expected) =>
        ⟨{ r with body := checkedBody a expected r.body.take.1 }, some r.body.take.2, p.2⟩) := by
  have hgo : ¬(!enabled && config.response = .whenRequired) = true := by
    intro hc
    rw [Bool.and_eq_true, Bool.not_eq_true', decide_eq_true_eq] at hc
    exact hskip hc
  unfold validate
  rw [if_neg hgo]
  refine congrArg _ (funext fun p => ?_)
  obtain ⟨found, notices⟩ := p
  cases found with
  | none => rfl
  | some q => rfl

/-- Validation that is not skipped goes by the checksum that was found. -/
theorem validate_eq_ok (hskip : ¬Skips enabled config)
    (hok : validate r modeled enabled config = .ok v) :
    ∃ found notices, advertised r.headers modeled = .ok (found, notices) ∧
      (found = none → v.response = r ∧ v.replaced = none) ∧
      ∀ a expected, found = some (a, expected) →
        v.response = { r with body := checkedBody a expected r.body.take.1 } ∧
          v.replaced = some r.body.take.2 := by
  rw [validate_of_not_skips hskip] at hok
  obtain ⟨⟨found, notices⟩, hadv, hok⟩ := Outcome.bind_eq_ok.mp hok
  refine ⟨found, notices, hadv, ?_⟩
  cases found with
  | none =>
    cases hok
    exact ⟨fun _ => ⟨rfl, rfl⟩, nofun⟩
  | some p =>
    cases hok
    refine ⟨nofun, ?_⟩
    intro a expected he
    cases he
    exact ⟨rfl, rfl⟩

/-- Validation returns unless the checksum it would read has a character outside ASCII. -/
theorem exists_validate_eq_ok :
    (∃ v, validate r modeled enabled config = .ok v) ↔
      Skips enabled config ∨ ∀ a value, Prefers r.headers modeled a value →
        isPartLevel value = true ∨ ∀ c ∈ value.toList, Text.isAscii c = true := by
  by_cases hskip : Skips enabled config
  · exact ⟨fun _ => Or.inl hskip, fun _ => ⟨_, validate_of_skips hskip⟩⟩
  · rw [or_iff_right hskip, ← exists_advertised_eq_ok, validate_of_not_skips hskip]
    constructor
    · rintro ⟨v, hv⟩
      obtain ⟨p, hp, -⟩ := Outcome.bind_eq_ok.mp hv
      exact ⟨p, hp⟩
    · rintro ⟨p, hp⟩
      exact ⟨_, Outcome.bind_eq_ok.mpr ⟨p, hp, rfl⟩⟩

/-- A response with the text of a checksum is checked against that checksum. -/
theorem validate_headerValue {data : Bytes} (hbody : r.body.Unread)
    (hskip : ¬Skips enabled config)
    (hp : Prefers r.headers modeled a (Checksum.headerValue a data)) :
    ∃ v, validate r modeled enabled config = .ok v ∧
      v.response.body.drain.1 = ⟨r.body.chunks,
        if (Checksum.ofBytes a r.body.chunks.flatten).digest = (Checksum.ofBytes a data).digest then
          none
        else some (.mismatch (Checksum.ofBytes a data).digest
          (Checksum.ofBytes a r.body.chunks.flatten).digest)⟩ := by
  rw [validate_of_not_skips hskip, advertised_headerValue hp]
  exact ⟨_, rfl, drain_checkedBody_take a _ hbody⟩

/-- A response is left as it is where validation is skipped or there is no checksum to check it
with. Else its old body is empty, and its new one delivers the chunks and checks them. -/
theorem validate_body (hbody : r.body.Unread)
    (hok : validate r modeled enabled config = .ok v) :
    (Skips enabled config ∨ (∀ a expected, ¬Checkable r.headers modeled a expected) →
      v.response = r ∧ v.replaced = none) ∧
    (¬Skips enabled config → ∀ a expected, Checkable r.headers modeled a expected →
      ∃ new left, v.response = { r with body := new } ∧ v.replaced = some left ∧
        left.taken = true ∧ left.octets? = some [] ∧
        new.drain.1 = ⟨r.body.chunks,
          if (Checksum.ofBytes a r.body.chunks.flatten).digest = expected then none
          else some (.mismatch expected (Checksum.ofBytes a r.body.chunks.flatten).digest)⟩) := by
  by_cases hskip : Skips enabled config
  · rw [validate_of_skips hskip] at hok
    cases hok
    exact ⟨fun _ => ⟨rfl, rfl⟩, fun hno => absurd hskip hno⟩
  · obtain ⟨found, notices, hadv, hnone, hsome⟩ := validate_eq_ok hskip hok
    constructor
    · rintro (hs | hno)
      · exact absurd hs hskip
      · refine hnone (Option.eq_none_iff_forall_ne_some.mpr ?_)
        intro p hp
        exact hno p.1 p.2 ((advertised_eq_ok hadv).mp hp)
    · intro _ a expected hcheck
      obtain ⟨hresponse, hreplaced⟩ := hsome a expected ((advertised_eq_ok hadv).mpr hcheck)
      have hleft := Body.take_left r.body
      have hdrain := drain_checkedBody a expected (Body.unread_take hbody)
      rw [Body.chunks_take] at hdrain
      exact ⟨_, _, hresponse, hreplaced, hleft.1, hleft.2.1, hdrain⟩

/-- A response that has lost its octets on the way, with the checksum of them. -/
def truncated : Response :=
  ⟨200, .ofList [("x-amz-checksum-crc32", "6Le+Qw==")], .ofStream ⟨[[], []], none, false⟩ none⟩

theorem prefers_truncated : Prefers truncated.headers ["SHA1", "CRC32"] .crc32 "6Le+Qw==" := by
  have hoffers : Offers truncated.headers ["SHA1", "CRC32"] .crc32 "6Le+Qw==" :=
    ⟨⟨"CRC32", by decide, by decide⟩, by decide⟩
  refine ⟨[.crc32c], [.sha1, .sha256], rfl, hoffers, ?_⟩
  intro b hb w hw
  rw [List.mem_singleton] at hb
  subst hb
  exact absurd hw.1 (by decide)

/-- The checksum that the response came with is preferred to one that is modeled before it. -/
theorem validate_body_of_truncated :
    ∃ v, validate truncated ["SHA1", "CRC32"] false .standard = .ok v ∧
      v.response.body.drain.1 =
        ⟨[[], []], some (.mismatch [0xe8, 0xb7, 0xbe, 0x43] [0, 0, 0, 0])⟩ := by
  have hunread : truncated.body.Unread := Body.unread_ofStream _ _ _
  have hskip : ¬Skips false .standard := by
    rintro ⟨-, h⟩
    cases h
  have hcheck : Checkable truncated.headers ["SHA1", "CRC32"] .crc32
      [0xe8, 0xb7, 0xbe, 0x43] :=
    ⟨"6Le+Qw==", prefers_truncated, by decide, by decide⟩
  have hdigest : (Checksum.ofBytes .crc32 []).digest = [0, 0, 0, 0] := by
    rw [Checksum.ofBytes, Checksum.update_nil]
    decide
  have hreturns : ∃ v, validate truncated ["SHA1", "CRC32"] false .standard = .ok v := by
    refine exists_validate_eq_ok.mpr (Or.inr fun a value hp => Or.inr ?_)
    have hvalue := (prefers_iff (firstHeader_eq_some.mpr prefers_truncated)).mp hp
    rw [← hvalue.2]
    exact List.all_eq_true.mp (by decide)
  obtain ⟨v, hok⟩ := hreturns
  obtain ⟨new, left, hresponse, -, -, -, hdrain⟩ :=
    (validate_body hunread hok).2 hskip .crc32 [0xe8, 0xb7, 0xbe, 0x43] hcheck
  refine ⟨v, hok, ?_⟩
  have hbody : v.response.body = new := by rw [hresponse]
  have hoctets : truncated.body.chunks.flatten = [] := rfl
  rw [hbody, hdrain, hoctets, hdigest]
  rfl

/-! ## Values that cannot be used -/

theorem advertised_of_not_base64 {value : String} (hp : Prefers h modeled a value)
    (hpart : isPartLevel value = false) (hascii : ∀ c ∈ value.toList, Text.isAscii c = true)
    (hdecode : Base64.decode value.toList = none) :
    advertised h modeled = .ok (none, [.notBase64]) := by
  have hplain : ¬ (!value.toList.all Text.isAscii) = true := by
    rw [not_isAscii_iff]
    rintro ⟨c, hc, hforeign⟩
    rw [hascii c hc] at hforeign
    cases hforeign
  rw [advertised_of_prefers hp, if_neg (Bool.eq_false_iff.mp hpart), if_neg hplain, hdecode]

theorem validate_eq_error {e : ReadError} :
    validate r modeled enabled config = .error e ↔
      ¬Skips enabled config ∧ advertised r.headers modeled = .error e := by
  by_cases hskip : Skips enabled config
  · rw [validate_of_skips hskip]
    exact iff_of_false nofun fun hno => hno.1 hskip
  · rw [validate_of_not_skips hskip, and_iff_right hskip]
    constructor
    · intro he
      rcases Outcome.bind_eq_error.mp he with he | ⟨p, -, he⟩
      · exact he
      · cases he
    · intro he
      rw [he]
      rfl

/-- The search and the validation fail on an unreadable value of the algorithm that is preferred,
and nowhere else. A value in ASCII that is not base64 is passed over with a notice, and the response
is left as it is. -/
theorem fails_on_unreadable (r : Response) (modeled : List String) (enabled : Bool)
    (config : ChecksumConfig) :
    (∀ e, advertised r.headers modeled = .error e ↔
      e = .notAscii ∧ ∃ a value, Prefers r.headers modeled a value ∧ Unreadable value) ∧
    (∀ e, validate r modeled enabled config = .error e ↔
      ¬Skips enabled config ∧ advertised r.headers modeled = .error e) ∧
    Notice.level .notBase64 = "ERROR" ∧
    ∀ a value, Prefers r.headers modeled a value → isPartLevel value = false →
      (∀ c ∈ value.toList, Text.isAscii c = true) → Base64.decode value.toList = none →
        advertised r.headers modeled = .ok (none, [.notBase64]) ∧
        (¬Skips enabled config →
          validate r modeled enabled config = .ok ⟨r, none, [.notBase64]⟩) := by
  refine ⟨fun e => advertised_eq_error, fun e => validate_eq_error, rfl, ?_⟩
  intro a value hp hpart hascii hdecode
  have hadv := advertised_of_not_base64 hp hpart hascii hdecode
  refine ⟨hadv, fun hskip => ?_⟩
  rw [validate_of_not_skips hskip, hadv]
  rfl

/-- A letter outside ASCII stands where a checksum is expected. -/
theorem not_every_value_passed_over :
    ¬ (∀ (h : Headers) (modeled : List String), ∃ p, advertised h modeled = .ok p) ∧
    ¬ (∀ (r : Response) (modeled : List String) (enabled : Bool) (config : ChecksumConfig),
      ∃ v, validate r modeled enabled config = .ok v) := by
  have hfails : advertised (.ofList [("x-amz-checksum-crc32", "\u00e9")]) ["crc32"] =
      .error .notAscii := Outcome.eq_error_of_failsWith (by decide)
  have hskip : ¬Skips true .standard := by
    rintro ⟨h, -⟩
    cases h
  constructor
  · intro hall
    obtain ⟨p, hp⟩ := hall (.ofList [("x-amz-checksum-crc32", "\u00e9")]) ["crc32"]
    rw [hfails] at hp
    cases hp
  · intro hall
    obtain ⟨v, hv⟩ := hall ⟨200, .ofList [("x-amz-checksum-crc32", "\u00e9")], .ofBytes []⟩
      ["crc32"] true .standard
    rw [validate_eq_error.mpr ⟨hskip, hfails⟩] at hv
    cases hv

end Wireform.ChecksumTransfer
