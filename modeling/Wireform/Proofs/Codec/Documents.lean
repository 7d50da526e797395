import Wireform.Codec.Decode
import Wireform.Codec.Encode
import Wireform.Codec.Sample
import Wireform.Proofs.Json.Octets

/-
  Wireform codec, documents: a document is written and read back as it is, to any depth, but for the
  entries of an outermost map that are null. Writing leaves them out as it leaves out the unset
  fields of a structure, while the nulls of lists and of inner maps stay.
-/

namespace Wireform

/-! ## Documents as values -/

namespace Value

mutual

/-- A document whose numbers can be written stands for itself. -/
theorem toJson_ofJson (j : Json) (hj : j.isExact = true) : (ofJson j).toJson = .ok j := by
  cases j with
  | null => rfl
  | flag b => rfl
  | whole n => rw [ofJson, toJson, if_pos (Text.isSome_write?_iff.mpr (of_decide_eq_true hj))]
  | real x => rfl
  | text s => rfl
  | list xs =>
    rw [ofJson, toJson, listToJson_ofJsonList xs hj]
    rfl
  | map fields =>
    rw [ofJson, toJson, fieldsToJson_ofJsonFields fields hj]
    rfl

theorem listToJson_ofJsonList (xs : List Json) (hxs : Json.itemsExact xs = true) :
    listToJson (ofJsonList xs) = .ok xs := by
  cases xs with
  | nil => rfl
  | cons x xs =>
    rw [Json.itemsExact, Bool.and_eq_true] at hxs
    rw [ofJsonList, listToJson, toJson_ofJson x hxs.1, listToJson_ofJsonList xs hxs.2]
    rfl

theorem fieldsToJson_ofJsonFields (fields : List (String × Json))
    (hfields : Json.fieldsExact fields = true) :
    fieldsToJson (ofJsonFields fields) = .ok fields := by
  cases fields with
  | nil => rfl
  | cons f r =>
    obtain ⟨k, v⟩ := f
    rw [Json.fieldsExact, Bool.and_eq_true, Bool.and_eq_true] at hfields
    rw [ofJsonFields, fieldsToJson, toJson_ofJson v hfields.1.2,
      fieldsToJson_ofJsonFields r hfields.2]
    rfl

end

theorem ofJson_inj {i j : Json} (hi : i.isExact = true) (hj : j.isExact = true)
    (h : ofJson i = ofJson j) : i = j := by
  have hsame := congrArg toJson h
  rw [toJson_ofJson i hi, toJson_ofJson j hj] at hsame
  exact Except.ok.inj hsame

theorem isNull_ofJson (j : Json) : (ofJson j).isNull = j.isNull := by
  cases j <;> rfl

end Value

/-! ## Nulls of the outermost map -/

namespace Json

/-- An outermost map without its nulls. -/
def withoutNulls : Json → Json
  | .map fields => .map (fields.filter fun f => !f.2.isNull)
  | j => j

/-- Whether the document is a map with a null among its values. -/
def HoldsNull (j : Json) : Prop := ∃ fields key, j = .map fields ∧ (key, .null) ∈ fields

theorem fieldsExact_filter (p : String × Json → Bool) {fields : List (String × Json)}
    (h : fieldsExact fields = true) : fieldsExact (fields.filter p) = true := by
  induction fields with
  | nil => rfl
  | cons f r ih =>
    obtain ⟨k, v⟩ := f
    simp only [fieldsExact, Bool.and_eq_true, Bool.not_eq_true', List.contains_eq_mem,
      decide_eq_false_iff_not] at h
    obtain ⟨⟨hk, hv⟩, hr⟩ := h
    rw [List.filter_cons]
    split
    · have hkeys : k ∉ Entries.keys (r.filter p) := fun hmem =>
        hk ((List.filter_sublist.map _).subset hmem)
      simp only [fieldsExact, Bool.and_eq_true, Bool.not_eq_true', List.contains_eq_mem,
        decide_eq_false_iff_not]
      exact ⟨⟨hkeys, hv⟩, ih hr⟩
    · exact ih hr

theorem isExact_withoutNulls {j : Json} (h : j.isExact = true) : j.withoutNulls.isExact = true := by
  cases j with
  | map fields => exact fieldsExact_filter _ h
  | _ => exact h

theorem withoutNulls_eq_self_iff {j : Json} : j.withoutNulls = j ↔ ¬ j.HoldsNull := by
  cases j with
  | map fields =>
    rw [withoutNulls, Json.map.injEq, List.filter_eq_self]
    constructor
    · rintro h ⟨_, key, hfields, hmem⟩
      cases hfields
      exact Bool.false_ne_true (h _ hmem)
    · intro h f hf
      rw [Bool.not_eq_true']
      cases hnull : f.2 with
      | null => exact absurd ⟨fields, f.1, rfl, hnull ▸ hf⟩ h
      | _ => rfl
  | _ =>
    refine iff_of_true rfl ?_
    rintro ⟨_, _, h, -⟩
    cases h

end Json

/-! ## Writing and reading -/

namespace Codec

variable (schemas : List Schema) (members : Option (List String))

theorem setFields_ofJsonFields (fields : List (String × Json)) :
    setFields (Value.ofJsonFields fields) =
      Value.ofJsonFields (fields.filter fun f => !f.2.isNull) := by
  induction fields with
  | nil => rfl
  | cons f r ih =>
    obtain ⟨k, v⟩ := f
    unfold setFields at ih ⊢
    rw [Value.ofJsonFields, List.filter_cons, List.filter_cons, ih]
    dsimp only
    rw [Value.isNull_ofJson]
    split <;> rfl

/-- What becomes a map is written without its nulls. -/
theorem encode_of_map {schemas : List Schema} {members : Option (List String)} {v : Value}
    {fields : List (String × Value)}
    (houter : outermost schemas (restrict members v) = .ok (.map fields)) :
    encode schemas members v = (Value.map (setFields fields)).toJson.map Json.compact := by
  unfold encode
  rw [houter]
  show ((Value.map (setFields fields)).toJson >>= fun j => pure j.compact) = _
  cases (Value.map (setFields fields)).toJson <;> rfl

theorem encode_ofJson {j : Json} (hj : j.isExact = true) :
    encode schemas members (.ofJson j) = .ok j.withoutNulls.compact := by
  have houter : outermost schemas (restrict members (.ofJson j)) = .ok (.ofJson j) := by
    cases j <;> rfl
  have hjson := Value.toJson_ofJson _ (Json.isExact_withoutNulls hj)
  cases j with
  | map fields =>
    rw [encode_of_map houter, setFields_ofJsonFields]
    exact congrArg (Except.map Json.compact) hjson
  | _ =>
    simp only [Json.withoutNulls, Value.ofJson] at houter hjson ⊢
    simp only [encode, houter, bind, Except.bind, hjson]
    rfl

theorem decode_compact {j : Json} (hj : j.isExact = true) :
    decode .document (Utf8.ofString j.compact) = .ok (.ofJson j) := by
  unfold decode decodeJson
  rw [Json.readOctets_of_isExact hj]
  rfl

/-- A document is read back from what was written, without the nulls of its outermost map. So it
survives exactly if it has none there. -/
theorem document_survives_iff {j : Json} (hj : j.isExact = true) :
    ∃ text, encode schemas members (.ofJson j) = .ok text ∧
      decode .document (Utf8.ofString text) = .ok (.ofJson j.withoutNulls) ∧
      (decode .document (Utf8.ofString text) = .ok (.ofJson j) ↔ ¬ j.HoldsNull) := by
  have hread := decode_compact (Json.isExact_withoutNulls hj)
  refine ⟨_, encode_ofJson schemas members hj, hread, ?_⟩
  rw [hread, Except.ok.injEq, ← Json.withoutNulls_eq_self_iff]
  exact ⟨Value.ofJson_inj (Json.isExact_withoutNulls hj) hj, congrArg Value.ofJson⟩

/-- Nulls in a list and in an inner map stay. -/
theorem document_survives_inner_null :
    let j : Json := .map [("item", .list [.null, .map [("a", .null)]]), ("size", .whole (-12))]
    j.isExact = true ∧ ∃ text, encode Sample.schemas none (.ofJson j) = .ok text ∧
      decode .document (Utf8.ofString text) = .ok (.ofJson j) := by
  refine ⟨by decide, ?_⟩
  obtain ⟨text, hwrite, -, hsurvives⟩ := document_survives_iff Sample.schemas none
    (j := .map [("item", .list [.null, .map [("a", .null)]]), ("size", .whole (-12))]) (by decide)
  refine ⟨text, hwrite, hsurvives.mpr ?_⟩
  rw [← Json.withoutNulls_eq_self_iff]
  rfl

/-- A map whose only value is null comes back empty. -/
theorem not_every_document_survives :
    ¬ ∀ j : Json, j.isExact = true → ∃ text,
      encode Sample.schemas none (.ofJson j) = .ok text ∧
        decode .document (Utf8.ofString text) = .ok (.ofJson j) := by
  intro h
  obtain ⟨text, hwrite, hread⟩ := h (.map [("a", .null)]) rfl
  rw [encode_ofJson Sample.schemas none rfl] at hwrite
  cases hwrite
  rw [decode_compact rfl] at hread
  cases hread

end Codec

end Wireform
