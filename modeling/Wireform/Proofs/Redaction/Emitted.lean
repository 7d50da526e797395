import Wireform.Proofs.Redaction.Clauses
import Wireform.Proofs.Source.Literals
import Wireform.Source.Sensitivity

/-
  Wireform redaction: the clauses that the text of a generated function stands for when the literals
  in it are read. Names and query keys are written in the form of messages and mean themselves.
  Prefixes are written in double quotes, so one with a character outside the basic plane is compared
  with as if it were not there (`mark_headerRules`).
-/

namespace Wireform

namespace Source

/-! ## Tests against literals -/

/-- A test of a text against literals of the module. -/
inductive MarkTest where
  | among (literals : List String)
  | startsWith (literal : String)

namespace MarkTest

/-- How the test of a variable is written. -/
def text (subject : String) : MarkTest → String
  | among literals => subject ++ " in " ++ Text.tuple literals
  | startsWith literal => subject ++ ".startswith(" ++ literal ++ ")"

/-- Whether a text passes the test; texts are compared by their code points. -/
def holds (t : String) : MarkTest → Bool
  | among literals => literals.any fun l => literalValue? l == some (codePoints t.toList)
  | startsWith literal =>
    (literalValue? literal).any fun start => start.isPrefixOf (codePoints t.toList)

/-- The test for one of some texts. -/
def amongTexts (ts : List String) : MarkTest := among (ts.map Text.quoted)

theorem text_amongTexts (subject : String) (ts : List String) :
    (amongTexts ts).text subject = subject ++ " in " ++ textsLiteral ts := rfl

theorem holds_amongTexts (t : String) (ts : List String) :
    (amongTexts ts).holds t = ts.contains t := by
  have hsame : ∀ u : String, (literalValue? (Text.quoted u) == some (codePoints t.toList)) =
      (t == u) := by
    intro u
    rw [literalValue?_quoted, Bool.eq_iff_iff, beq_iff_eq, beq_iff_eq, Option.some_inj]
    exact ⟨fun h => (String.toList_inj.mp (codePoints_injective h)).symm, fun h => h ▸ rfl⟩
  show (ts.map Text.quoted).any (fun l => literalValue? l == some (codePoints t.toList)) = _
  rw [List.any_map, List.contains_eq_any_beq]
  exact congrArg ts.any (funext hsame)

theorem isPrefixOf_codePoints (s t : List Char) :
    (codePoints s).isPrefixOf (codePoints t) = s.isPrefixOf t := by
  rw [Bool.eq_iff_iff, List.isPrefixOf_iff_prefix, List.isPrefixOf_iff_prefix]
  refine ⟨fun h => ?_, fun h => h.map Char.toNat⟩
  obtain ⟨u, hu, he⟩ := List.prefix_map_iff.mp h
  rwa [codePoints_injective he]

theorem holds_startsWith (t start : String) :
    (startsWith (textLiteral start)).holds t =
      (decide (IsBasic start) && start.toList.isPrefixOf t.toList) := by
  show (literalValue? (textLiteral start)).any
    (fun start => start.isPrefixOf (codePoints t.toList)) = _
  rw [literalValue?_textLiteral, Option.any_some]
  by_cases hbasic : IsBasic start
  · rw [flatMap_codeUnits_of_isBasic hbasic, isPrefixOf_codePoints, decide_eq_true hbasic,
      Bool.true_and]
  · rw [decide_eq_false hbasic, Bool.false_and, ← Bool.not_eq_true, List.isPrefixOf_iff_prefix]
    exact fun h => hbasic (isBasic_of_subset h.subset)

end MarkTest

/-! ## The rules of a header clause -/

/-- A rule of a header clause: whose values are sensitive, and where a sensitive key starts. -/
structure MarkRule where
  test : MarkTest
  keyStart : Option Nat

namespace MarkRule

/-- How a rule is written. -/
def lines (r : MarkRule) : List String := [
  "    if " ++ r.test.text "name" ++ ":",
  "        return _s.HeaderMarker(value=True" ++
    (match r.keyStart with
      | some n => ", key_suffix=" ++ toString n
      | none => "") ++ ")"]

/-- The mark that the first rule gives whose test holds. -/
def mark (rules : List MarkRule) (name : String) : HeaderMark :=
  match rules.find? fun r => r.test.holds name with
  | some r => ⟨true, r.keyStart⟩
  | none => .none

end MarkRule

/-- The rules for names and prefixes. -/
def headerRules (names prefixes : List String) : List MarkRule :=
  (if names.isEmpty then [] else [⟨.amongTexts names, none⟩]) ++
    prefixes.map fun p => ⟨.startsWith (textLiteral p), some p.length⟩

/-- The inner function of a header clause is the text of its rules. -/
theorem headerMarkLines_eq (function : String) (names prefixes : List String) :
    headerMarkLines function names prefixes =
      ("def " ++ function ++ "(name: str) -> _s.HeaderMarker:") ::
        (headerRules names prefixes).flatMap MarkRule.lines ++
          ["    return _s.HeaderMarker(value=False)"] := by
  have hnames : (if names.isEmpty then [] else [
      "    if name in " ++ textsLiteral names ++ ":",
      "        return _s.HeaderMarker(value=True)"]) =
      (if names.isEmpty then [] else [⟨.amongTexts names, none⟩]).flatMap MarkRule.lines := by
    split
    · rfl
    · have hstart : "    if name in " = "    if " ++ "name" ++ " in " := rfl
      have hmark : "        return _s.HeaderMarker(value=True)" =
          "        return _s.HeaderMarker(value=True" ++ "" ++ ")" := rfl
      rw [List.flatMap_singleton, MarkRule.lines, MarkTest.text_amongTexts, hstart, hmark]
      simp only [String.append_assoc]
  have hprefix : ∀ p : String, prefixMarkLines p =
      MarkRule.lines ⟨.startsWith (textLiteral p), some p.length⟩ := by
    intro p
    have hstart : "    if name.startswith(" = "    if " ++ "name" ++ ".startswith(" := rfl
    have hend : "):" = ")" ++ ":" := rfl
    have hmark : "        return _s.HeaderMarker(value=True, key_suffix=" =
        "        return _s.HeaderMarker(value=True" ++ ", key_suffix=" := rfl
    unfold prefixMarkLines MarkRule.lines MarkTest.text
    rw [hstart, hend, hmark]
    simp only [String.append_assoc]
  unfold headerMarkLines headerRules
  rw [hnames, List.flatMap_append, List.flatMap_map, funext hprefix]
  rfl

/-- The call that registers a list of query keys is the text of a test. -/
theorem query_mem_clauseCalls {c : Coverage} (hparams : c.queryParams = false)
    (hkeys : c.queryKeys.isEmpty = false) :
    ".query(lambda key: _s.QueryMarker(key=False, value=" ++
      (MarkTest.amongTexts c.queryKeys).text "key" ++ "))" ∈ clauseCalls c := by
  have hstart : ".query(lambda key: _s.QueryMarker(key=False, value=key in " =
      ".query(lambda key: _s.QueryMarker(key=False, value=" ++ "key" ++ " in " := rfl
  unfold clauseCalls
  rw [hparams, hkeys, if_neg Bool.false_ne_true, if_neg Bool.false_ne_true, hstart,
    MarkTest.text_amongTexts]
  simp only [String.append_assoc, List.mem_append, List.mem_singleton, true_or, or_true]

/-- The prefixes that a generated test finds. -/
def basicPrefixes (prefixes : List String) : List String := prefixes.filter fun p => IsBasic p

/-- The rules mark what a clause of the same names and of the basic prefixes marks. -/
theorem mark_headerRules (names prefixes : List String) :
    MarkRule.mark (headerRules names prefixes) =
      Redaction.headerClause names (basicPrefixes prefixes) := by
  funext name
  have hprefixes : (prefixes.map fun p =>
      (⟨.startsWith (textLiteral p), some p.length⟩ : MarkRule)).find?
        (fun r => r.test.holds name) =
      ((basicPrefixes prefixes).find? fun p => p.toList.isPrefixOf name.toList).map fun p =>
        ⟨.startsWith (textLiteral p), some p.length⟩ := by
    have htest : ((fun r : MarkRule => r.test.holds name) ∘ fun p =>
        ⟨.startsWith (textLiteral p), some p.length⟩) = fun p =>
        decide (decide (IsBasic p) = true ∧ p.toList.isPrefixOf name.toList = true) := by
      funext p
      rw [Function.comp_apply, MarkTest.holds_startsWith, Bool.decide_and, Bool.decide_eq_true,
        Bool.decide_eq_true]
    unfold basicPrefixes
    rw [List.find?_map, List.find?_filter, htest]
  have hnames : (if names.isEmpty then [] else
      [(⟨.amongTexts names, none⟩ : MarkRule)]).find? (fun r => r.test.holds name) =
      if names.contains name then some ⟨.amongTexts names, none⟩ else none := by
    cases names with
    | nil => rfl
    | cons n ns =>
      rw [List.isEmpty_cons, if_neg Bool.false_ne_true, List.find?_singleton,
        MarkTest.holds_amongTexts]
  unfold MarkRule.mark headerRules Redaction.headerClause
  rw [List.find?_append, hnames, hprefixes]
  cases names.contains name with
  | true => rfl
  | false =>
    rw [if_neg Bool.false_ne_true, Option.none_or, if_neg Bool.false_ne_true]
    cases (basicPrefixes prefixes).find? fun p => p.toList.isPrefixOf name.toList <;> rfl

end Source

/-! ## The redaction of an operation -/

namespace Coverage

open Source

/-- The redaction that the generated function of an operation gives when its literals are read. -/
def emitted (c : Coverage) : Redaction where
  path := c.redaction.path
  query :=
    if c.queryParams then some Redaction.wholeQuery
    else if c.queryKeys.isEmpty then none
    else some fun key => ⟨false, (MarkTest.amongTexts c.queryKeys).holds key⟩
  requestHeader :=
    if c.hasRequestHeaders then
      some (MarkRule.mark (headerRules c.requestHeaders c.requestPrefixes))
    else none
  responseHeader :=
    if c.hasResponseHeaders then
      some (MarkRule.mark (headerRules c.responseHeaders c.responsePrefixes))
    else none
  statusCode := c.statusCode

variable (c : Coverage)

/-- A clause that is left out marks nothing. -/
theorem mark_headerRules_empty {names prefixes : List String}
    (h : (!names.isEmpty || !prefixes.isEmpty) = false) (name : String) :
    MarkRule.mark (headerRules names prefixes) name = .none := by
  cases names with
  | cons n ns => cases h
  | nil =>
    cases prefixes with
    | cons p ps => cases h
    | nil => rfl

theorem requestMark_emitted (name : String) :
    c.emitted.requestMark name =
      Redaction.headerClause c.requestHeaders (basicPrefixes c.requestPrefixes)
        (Text.lowered name) := by
  rw [← mark_headerRules]
  unfold Redaction.requestMark emitted
  cases hclause : c.hasRequestHeaders with
  | true => rfl
  | false => exact (mark_headerRules_empty hclause _).symm

theorem responseMark_emitted (name : String) :
    c.emitted.responseMark name =
      Redaction.headerClause c.responseHeaders (basicPrefixes c.responsePrefixes)
        (Text.lowered name) := by
  rw [← mark_headerRules]
  unfold Redaction.responseMark emitted
  cases hclause : c.hasResponseHeaders with
  | true => rfl
  | false => exact (mark_headerRules_empty hclause _).symm

theorem queryMark_emitted (key : String) :
    c.emitted.queryMark key = ⟨c.queryParams, c.queryParams || c.queryKeys.contains key⟩ := by
  unfold Redaction.queryMark emitted
  dsimp only
  cases hparams : c.queryParams with
  | true => rfl
  | false =>
    cases hkeys : c.queryKeys with
    | nil => rfl
    | cons k ks =>
      rw [if_neg Bool.false_ne_true, List.isEmpty_cons, if_neg Bool.false_ne_true]
      dsimp only
      rw [MarkTest.holds_amongTexts, Bool.false_or]

end Coverage

end Wireform
