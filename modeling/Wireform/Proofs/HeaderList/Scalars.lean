import Mathlib.Data.List.Basic
import Wireform.Proofs.Answers
import Wireform.Proofs.HeaderList.RoundTrip
import Wireform.Proofs.Number.Decimals

/-
  Wireform header lists: booleans, whole numbers and decimals. Each has one text, which needs no
  quotes and gives it back, so a list of them comes back from its line (`scalars_survive`).
-/

namespace Wireform

/-! ## One value -/

namespace Scalar

/-- The values of a kind that have an exact text: a whole number has at most as many digits as may
be written, and the parts of a decimal lie in range. -/
inductive Exact : ScalarKind → Value → Prop
  | flag (b : Bool) : Exact .flag (.flag b)
  | whole {n : Int} (h : (Text.ofNat n.natAbs).length ≤ Whole.maxDigits) :
    Exact .whole (.whole n)
  | decimal {d : Decimal} (h : d.Representable) : Exact .decimal (.decimal d)

/-- A text that stands in a list as it is: neither white space nor what has to be quoted. -/
structure Plain (t : String) : Prop where
  shown : t ≠ ""
  chars : ∀ c ∈ t.toList, Text.isBlank c = false ∧ c ∉ ",\"()".toList

theorem plain_of_mem (cs : List Char) {t : List Char} (hne : t ≠ [])
    (hcs : ∀ c ∈ cs, Text.isBlank c = false ∧ c ∉ ",\"()".toList) (ht : ∀ c ∈ t, c ∈ cs) :
    Plain (String.ofList t) := by
  refine ⟨fun h => hne ?_, fun c hc => hcs c (ht c ?_)⟩
  · rw [← String.toList_inj, String.toList_ofList] at h
    exact h
  · rwa [String.toList_ofList] at hc

theorem Plain.strip_eq {t : String} (h : Plain t) : strip t = t := by
  unfold strip
  rw [Text.trim_of_forall_not fun c hc => (h.chars c hc).1, String.ofList_toList]

theorem plain_flag (b : Bool) : Plain (if b then "true" else "false") := by
  cases b with
  | true => exact ⟨by decide, List.all_iff_forall_prop.mp (by decide)⟩
  | false => exact ⟨by decide, List.all_iff_forall_prop.mp (by decide)⟩

theorem plain_digits (n : Int) : Plain (String.ofList (Whole.digits n)) := by
  refine plain_of_mem ('-' :: ['0', '1', '2', '3', '4', '5', '6', '7', '8', '9']) ?_
    (List.all_iff_forall_prop.mp (by decide)) fun c hc => ?_
  · rw [Whole.digits_eq]
    exact List.append_ne_nil_of_right_ne_nil _ (Text.ofNat_ne_nil _)
  · rw [Whole.digits_eq] at hc
    rcases List.mem_append.mp hc with hc | hc
    · split at hc
      · exact List.mem_singleton.mp hc ▸ List.mem_cons_self
      · cases hc
    · exact List.mem_cons_of_mem _ (Text.mem_digits (Text.isDigitAscii_of_mem hc))

theorem plain_decimal (d : Decimal) : Plain (String.ofList d.text) :=
  plain_of_mem Decimal.textChars d.text_ne_nil (List.all_iff_forall_prop.mp (by decide))
    fun _ => Decimal.mem_textChars

/-- A value is read back from its text. -/
theorem exists_text {kind : ScalarKind} {v : Value} (h : Exact kind v) :
    ∃ t, write v = .ok t ∧ Plain t ∧ read kind t = .ok v := by
  cases h with
  | flag b =>
    refine ⟨if b then "true" else "false", by cases b <;> rfl, plain_flag b, ?_⟩
    unfold read
    dsimp only
    rw [(plain_flag b).strip_eq]
    cases b <;> rfl
  | @whole n hlength =>
    have hsome : Whole.write? n = some (Whole.digits n) := by
      have hwrite := Text.isSome_write?_iff.mpr hlength
      unfold Whole.write? at hwrite ⊢
      split at hwrite
      · next hsmall => exact if_pos hsmall
      · cases hwrite
    refine ⟨String.ofList (Whole.digits n), ?_, plain_digits n, ?_⟩
    · show Value.wholeText n = _
      unfold Value.wholeText
      rw [hsome]
    · unfold read
      dsimp only
      rw [(plain_digits n).strip_eq, Whole.ofText, String.toList_ofList, Whole.read_digits hlength]
      rfl
  | @decimal d hd =>
    refine ⟨String.ofList d.text, rfl, plain_decimal d, ?_⟩
    unfold read
    dsimp only
    rw [(plain_decimal d).strip_eq, readDecimal, String.toList_ofList, Decimal.read?_text hd]
    rfl

/-- Two values of a kind have two texts. -/
theorem write_inj {kind : ScalarKind} {v w : Value} (hv : Exact kind v) (hw : Exact kind w)
    (h : write v = write w) : v = w := by
  obtain ⟨t, hwrite, -, hread⟩ := exists_text hv
  obtain ⟨u, hwrite', -, hread'⟩ := exists_text hw
  rw [hwrite, hwrite'] at h
  cases h
  exact Except.ok.inj (hread.symm.trans hread')

end Scalar

/-! ## Lists -/

namespace HeaderList

theorem quote_of_plain {t : String} (h : Scalar.Plain t) : quote t = t := by
  have hbare : needsQuotes t.toList = false := by
    have hnil : t.toList ≠ [] := fun hs => h.shown (String.toList_inj.mp hs)
    unfold needsQuotes
    rw [Text.trim_of_forall_not fun c hc => (h.chars c hc).1, List.isEmpty_eq_false_iff.mpr hnil,
      decide_eq_false (not_not.mpr rfl), Bool.or_false, Bool.false_or, List.any_eq_false]
    intro c hc hmark
    exact (h.chars c hc).2 (List.contains_iff_mem.mp hmark)
  rw [quote, quoteChars_of_bare hbare, String.ofList_toList]

/-- Plain texts are split at the commas that join them. -/
theorem split_plain {ts : List String} (h : ∀ t ∈ ts, Scalar.Plain t) :
    split [", ".intercalate ts] = .ok ts := by
  have hwrite := split_write ts
  rwa [write, List.map_congr_left fun t ht => quote_of_plain (h t ht), List.map_id'] at hwrite

theorem readScalars_intercalate {kind : ScalarKind} {ts : List String} {vs : List Value}
    (hplain : ∀ t ∈ ts, Scalar.Plain t) (hread : ts.mapM (Scalar.read kind) = .ok vs) :
    readScalars kind [", ".intercalate ts] = .ok vs := by
  unfold readScalars
  rw [split_plain hplain]
  show WireError.wrap .primitive (ts.mapM (Scalar.read kind)) = _
  rw [hread]
  rfl

/-- Booleans, whole numbers and decimals come back from one line with all their parts, and no two of
a kind have the same text. -/
theorem scalars_survive (kind : ScalarKind) :
    (∀ vs : List Value, (∀ v ∈ vs, Scalar.Exact kind v) →
      ∃ ts, vs.mapM Scalar.write = .ok ts ∧ readScalars kind [", ".intercalate ts] = .ok vs) ∧
    ∀ v w, Scalar.Exact kind v → Scalar.Exact kind w → v ≠ w →
      ∃ t u, Scalar.write v = .ok t ∧ Scalar.write w = .ok u ∧ t ≠ u := by
  constructor
  · intro vs hvs
    obtain ⟨ts, hts⟩ := Outcome.exists_forall₂ fun v hv => Scalar.exists_text (hvs v hv)
    refine ⟨ts, Outcome.mapM_eq_ok.mpr (hts.imp fun _ _ h => h.1),
      readScalars_intercalate ?_ (Outcome.mapM_eq_ok.mpr (hts.flip.imp fun _ _ h => h.2.2))⟩
    intro t ht
    obtain ⟨v, -, -, hplain, -⟩ := Outcome.exists_of_mem_forall₂ hts ht
    exact hplain
  · intro v w hv hw hne
    obtain ⟨t, hwrite, -⟩ := Scalar.exists_text hv
    obtain ⟨u, hwrite', -⟩ := Scalar.exists_text hw
    refine ⟨t, u, hwrite, hwrite', ?_⟩
    rintro rfl
    exact hne (Scalar.write_inj hv hw (hwrite.trans hwrite'.symm))

/-- A zero behind the point, a negative zero with an exponent, a small number and the parts of a
not-a-number. -/
def sampleDecimals : List Value :=
  [.decimal (.finite false 120 (-2)), .decimal (.finite true 0 3), .decimal (.finite false 1 (-7)),
    .decimal (.nan true true 5)]

theorem scalars_survive_sample :
    (∀ v ∈ sampleDecimals, Scalar.Exact .decimal v) ∧
      readScalars .decimal ["1.20, -0E+3, 1E-7, -sNaN5"] = .ok sampleDecimals ∧
      ∃ t u, Scalar.write (.decimal (.finite false 1 0)) = .ok t ∧
        Scalar.write (.decimal (.finite false 10 (-1))) = .ok u ∧ t ≠ u := by
  have hexact : ∀ v ∈ sampleDecimals, Scalar.Exact .decimal v := by
    unfold sampleDecimals
    simp only [List.forall_mem_cons, List.not_mem_nil, false_implies, implies_true, and_true]
    exact ⟨.decimal (by decide), .decimal (by decide), .decimal (by decide), .decimal trivial⟩
  have hwritten : sampleDecimals.mapM Scalar.write = .ok ["1.20", "-0E+3", "1E-7", "-sNaN5"] := rfl
  refine ⟨hexact, ?_, (scalars_survive .decimal).2 _ _ (.decimal (by decide)) (.decimal (by decide))
    nofun⟩
  obtain ⟨ts, hts, hread⟩ := (scalars_survive .decimal).1 _ hexact
  rw [hwritten] at hts
  cases hts
  exact hread

end HeaderList

end Wireform
