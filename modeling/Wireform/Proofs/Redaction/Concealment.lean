import Mathlib.Data.List.Find
import Wireform.Proofs.Headers
import Wireform.Proofs.Outcome
import Wireform.Proofs.Redaction.Emitted
import Wireform.Proofs.Text.Case

/-
  Wireform redaction: what a log tells of the headers, the query and the status of two messages that
  differ only in what is covered. `emitted_conceals` says that it tells the two apart exactly if a
  prefix that a lower-case name can begin with has a character outside the basic plane and no other
  prefix stands for it. All that is not covered is shown as it is.
-/

namespace Wireform

open Source

/-! ## Messages that differ in what is covered -/

/-- The first of the prefixes that a name has. -/
def firstPrefix? (prefixes : List String) (name : String) : Option String :=
  prefixes.find? fun p => p.toList.isPrefixOf (Text.lowered name).toList

/-- Two fields that differ at most in what names and prefixes cover: in the value of a name, or in
all that follows the first prefix that both names have. -/
inductive FieldAlike (names prefixes : List String) : String × String → String × String → Prop
  | same {n m v : String} (h : Text.lowered n = Text.lowered m) :
    FieldAlike names prefixes (n, v) (m, v)
  | named {n m v w : String} (h : Text.lowered n = Text.lowered m) (hn : Text.lowered n ∈ names) :
    FieldAlike names prefixes (n, v) (m, w)
  | prefixed {n m v w p : String} (hn : Text.lowered n ∉ names) (hm : Text.lowered m ∉ names)
    (hp : firstPrefix? prefixes n = some p) (hq : firstPrefix? prefixes m = some p) :
    FieldAlike names prefixes (n, v) (m, w)

/-- Names and prefixes do not cover a field of this name. -/
def Uncovered (names prefixes : List String) (name : String) : Prop :=
  Text.lowered name ∉ names ∧ ∀ p ∈ prefixes, ¬ p.toList <+: (Text.lowered name).toList

/-- Headers that differ only in what is covered look the same. -/
def HidesFields (names prefixes : List String) (mark : String → HeaderMark) : Prop :=
  ∀ a b, List.Forall₂ (FieldAlike names prefixes) a b →
    Redaction.redactHeaders mark (.ofList a) = Redaction.redactHeaders mark (.ofList b)

/-- Each field that is not covered is shown at its place as it is. -/
def ShowsFields (names prefixes : List String) (mark : String → HeaderMark) : Prop :=
  ∀ (fields : List (String × String)) (i : Nat) (n v : String), fields[i]? = some (n, v) →
    Uncovered names prefixes n →
    (Redaction.redactHeaders mark (.ofList fields))[i]? = some (Text.lowered n, v)

namespace Redaction

/-- How a log shows the status of a response. -/
def shownStatus (r : Redaction) (status : Int) : String :=
  hide r.statusCode (String.ofList (Whole.digits status))

theorem responseLine_eq (r : Redaction) (response : Response) :
    r.responseLine response = "response status=" ++ r.shownStatus response.status ++ " headers=" ++
      Headers.showPairs (redactHeaders r.responseMark response.headers) := rfl

end Redaction

namespace Coverage

/-- Two query pairs that differ at most in what is covered. -/
inductive PairAlike (c : Coverage) : String × String → String × String → Prop
  | same {f : String × String} : PairAlike c f f
  | keyed {k v w : String} (h : k ∈ c.queryKeys) : PairAlike c (k, v) (k, w)
  | whole {f g : String × String} (h : c.queryParams = true) : PairAlike c f g

/-- Queries that differ only in what is covered look the same. -/
def HidesQuery (c : Coverage) (r : Redaction) : Prop :=
  ∀ a b, List.Forall₂ c.PairAlike a b → r.redactQuery a = r.redactQuery b

/-- If the status is covered, all statuses look the same. -/
def HidesStatus (c : Coverage) (r : Redaction) : Prop :=
  ∀ a b : Int, c.statusCode = true ∨ a = b → r.shownStatus a = r.shownStatus b

/-- A log tells nothing of what is covered outside the path. -/
structure Conceals (c : Coverage) (r : Redaction) : Prop where
  requestHeaders : HidesFields c.requestHeaders c.requestPrefixes r.requestMark
  responseHeaders : HidesFields c.responseHeaders c.responsePrefixes r.responseMark
  query : c.HidesQuery r
  status : c.HidesStatus r

/-- A log shows all that is not covered outside the path. -/
structure ShowsRest (c : Coverage) (r : Redaction) : Prop where
  requestHeaders : ShowsFields c.requestHeaders c.requestPrefixes r.requestMark
  responseHeaders : ShowsFields c.responseHeaders c.responsePrefixes r.responseMark
  query : ∀ (params : List (String × String)) (i : Nat) (k v : String), params[i]? = some (k, v) →
    c.queryParams = false → k ∉ c.queryKeys → (r.redactQuery params)[i]? = some (k, v)
  status : c.statusCode = false → ∀ status : Int,
    r.shownStatus status = String.ofList (Whole.digits status)

end Coverage

/-- For each prefix in lower case there is one, perhaps itself, that a generated test finds in all
the same names. -/
def Readable (prefixes : List String) : Prop :=
  ∀ p ∈ prefixes, Text.lowered p = p → ∃ q ∈ prefixes, IsBasic q ∧ q.toList <+: p.toList

/-! ## One field -/

section

variable {names prefixes : List String} {mark : String → HeaderMark} {n m p q : String}

/-- What is shown of a field of headers. -/
def shownField (names prefixes : List String) (f : String × String) : String × String :=
  Redaction.redactField (Redaction.headerClause names prefixes) (Text.lowered f.1, f.2)

theorem redactHeaders_ofList
    (h : ∀ name, mark name = Redaction.headerClause names prefixes (Text.lowered name))
    (fields : List (String × String)) :
    Redaction.redactHeaders mark (.ofList fields) = fields.map (shownField names prefixes) := by
  unfold Redaction.redactHeaders
  rw [Headers.fields_ofList, List.map_map]
  refine List.map_congr_left fun f _ => ?_
  unfold shownField Redaction.redactField
  rw [Function.comp_apply, h, Text.lowered_lowered]

theorem headerClause_of_mem (h : n ∈ names) : Redaction.headerClause names prefixes n =
    ⟨true, none⟩ :=
  if_pos (List.contains_iff_mem.mpr h)

theorem headerClause_of_find (h : n ∉ names)
    (hp : prefixes.find? (fun p => p.toList.isPrefixOf n.toList) = some p) :
    Redaction.headerClause names prefixes n = ⟨true, some p.length⟩ := by
  unfold Redaction.headerClause
  rw [if_neg fun hmem => h (List.contains_iff_mem.mp hmem), hp]

theorem headerClause_of_uncovered (h : n ∉ names) (hp : ∀ p ∈ prefixes, ¬ p.toList <+: n.toList) :
    Redaction.headerClause names prefixes n = .none := by
  unfold Redaction.headerClause
  rw [if_neg fun hmem => h (List.contains_iff_mem.mp hmem), List.find?_eq_none.mpr fun p hmem he =>
    hp p hmem (List.isPrefixOf_iff_prefix.mp he)]

theorem prefix_of_find? {s : List Char}
    (h : prefixes.find? (fun p => p.toList.isPrefixOf s) = some p) : p.toList <+: s := by
  have hfound := List.find?_some h
  exact List.isPrefixOf_iff_prefix.mp hfound

/-- Of a field under a prefix only the prefix is shown. -/
theorem shownField_of_find (h : Text.lowered n ∉ names)
    (hp : prefixes.find? (fun p => p.toList.isPrefixOf (Text.lowered n).toList) = some p)
    (v : String) :
    shownField names prefixes (n, v) = (p ++ redactedText, redactedText) := by
  have htake : (Text.lowered n).toList.take p.length = p.toList :=
    (List.prefix_iff_eq_take.mp (prefix_of_find? hp)).symm
  unfold shownField Redaction.redactField
  rw [headerClause_of_find h hp]
  dsimp only
  rw [htake, String.ofList_toList]
  rfl

theorem shownField_of_uncovered (h : Uncovered names prefixes n) (v : String) :
    shownField names prefixes (n, v) = (Text.lowered n, v) := by
  unfold shownField Redaction.redactField
  rw [headerClause_of_uncovered h.1 h.2]
  rfl

/-! ## Prefixes that are found -/

theorem mem_basicPrefixes : p ∈ basicPrefixes prefixes ↔ p ∈ prefixes ∧ IsBasic p := by
  unfold basicPrefixes
  rw [List.mem_filter, decide_eq_true_eq]

/-- A basic prefix of a name does not reach beyond the first character that is not basic. -/
theorem prefix_of_not_isBasic {s : List Char} (hq : IsBasic q) (hp : ¬ IsBasic p)
    (hqs : q.toList <+: s) (hps : p.toList <+: s) : q.toList <+: p.toList := by
  rcases List.prefix_or_prefix_of_prefix hqs hps with h | h
  · exact h
  · exact absurd (fun c hc => hq c (h.subset hc)) hp

/-- The first prefix that a name has decides which one a generated test finds. -/
theorem find?_basicPrefixes {s : List Char}
    (h : prefixes.find? (fun p => p.toList.isPrefixOf s) = some p) :
    (basicPrefixes prefixes).find? (fun q => q.toList.isPrefixOf s) =
      (basicPrefixes prefixes).find? fun q => q.toList.isPrefixOf p.toList := by
  have hps : p.toList <+: s := prefix_of_find? h
  by_cases hp : IsBasic p
  · -- no prefix before this one fits the name, and so none fits this one
    obtain ⟨-, before, after, rfl, hbefore⟩ := List.find?_eq_some_iff_append.mp h
    have hnone : ∀ t, t <+: s →
        (basicPrefixes before).find? (fun q => q.toList.isPrefixOf t) = none := by
      intro t ht
      refine List.find?_eq_none.mpr fun q hq he => ?_
      have hqs := (List.isPrefixOf_iff_prefix.mp he).trans ht
      have hq' := hbefore q (mem_basicPrefixes.mp hq).1
      rw [Bool.not_eq_true', ← Bool.not_eq_true] at hq'
      exact hq' (List.isPrefixOf_iff_prefix.mpr hqs)
    have hfirst : ∀ t, p.toList <+: t →
        (p :: basicPrefixes after).find? (fun q => q.toList.isPrefixOf t) = some p := fun t ht => by
      rw [List.find?_cons, List.isPrefixOf_iff_prefix.mpr ht]
    have hsplit : basicPrefixes (before ++ p :: after) =
        basicPrefixes before ++ p :: basicPrefixes after := by
      unfold basicPrefixes
      rw [List.filter_append, List.filter_cons, decide_eq_true hp]
      rfl
    rw [hsplit, List.find?_append, List.find?_append, hnone s List.prefix_rfl, hnone _ hps,
      hfirst s hps, hfirst _ List.prefix_rfl]
  · refine List.find?_congr fun q hq => ?_
    rw [Bool.eq_iff_iff, List.isPrefixOf_iff_prefix, List.isPrefixOf_iff_prefix]
    exact ⟨fun hqs => prefix_of_not_isBasic (mem_basicPrefixes.mp hq).2 hp hqs hps,
      fun hqp => hqp.trans hps⟩

/-- What a lower-case name begins with is in lower case. -/
theorem lowered_of_start (h : p.toList <+: (Text.lowered n).toList) : Text.lowered p = p := by
  unfold Text.lowered at h ⊢
  rw [String.toList_ofList] at h
  rw [Text.lower_of_isLowered fun c hc => Text.isLowered_of_mem_lower (h.subset hc),
    String.ofList_toList]

/-- A readable prefix is found, or another one that it begins with. -/
theorem exists_find?_basicPrefixes (hr : Readable prefixes) (h : firstPrefix? prefixes n = some p) :
    ∃ q, (basicPrefixes prefixes).find? (fun q => q.toList.isPrefixOf p.toList) = some q := by
  obtain ⟨q, hq, hbasic, hqp⟩ :=
    hr p (List.mem_of_find?_eq_some h) (lowered_of_start (prefix_of_find? h))
  exact Option.isSome_iff_exists.mp (List.find?_isSome.mpr
    ⟨q, mem_basicPrefixes.mpr ⟨hq, hbasic⟩, List.isPrefixOf_iff_prefix.mpr hqp⟩)

/-! ## Headers -/

/-- If the prefixes are readable, fields that are alike are shown alike. -/
theorem FieldAlike.shownField_eq (hr : Readable prefixes) {f g : String × String}
    (h : FieldAlike names prefixes f g) :
    shownField names (basicPrefixes prefixes) g = shownField names (basicPrefixes prefixes) f := by
  cases h with
  | same h =>
    unfold shownField
    rw [h]
  | named h hn =>
    unfold shownField Redaction.redactField
    rw [← h, headerClause_of_mem hn]
    rfl
  | prefixed hn hm hp hq =>
    obtain ⟨q, hfind⟩ := exists_find?_basicPrefixes hr hp
    rw [shownField_of_find hn ((find?_basicPrefixes hp).trans hfind),
      shownField_of_find hm ((find?_basicPrefixes hq).trans hfind)]

theorem exists_length_lt (names : List String) : ∃ k, ∀ n ∈ names, n.length < k := by
  induction names with
  | nil => exact ⟨0, fun _ h => absurd h List.not_mem_nil⟩
  | cons m names ih =>
    obtain ⟨k, hk⟩ := ih
    refine ⟨max k (m.length + 1), fun n hn => ?_⟩
    rcases List.mem_cons.mp hn with rfl | hn
    · omega
    · have := hk n hn
      omega

/-- A name of its own under a prefix in lower case. -/
theorem exists_new_name (names : List String) (h : Text.lowered p = p) :
    ∃ n, Text.lowered n = n ∧ p.toList <+: n.toList ∧ n ∉ names := by
  obtain ⟨k, hk⟩ := exists_length_lt names
  have hlowered : ∀ c ∈ p.toList ++ List.replicate k '0', Text.IsLowered c := by
    intro c hc
    rcases List.mem_append.mp hc with hc | hc
    · rw [← h, Text.lowered, String.toList_ofList] at hc
      exact Text.isLowered_of_mem_lower hc
    · obtain rfl := List.eq_of_mem_replicate hc
      decide +kernel
  refine ⟨String.ofList (p.toList ++ List.replicate k '0'), ?_, ?_, fun hmem => ?_⟩
  · unfold Text.lowered
    rw [String.toList_ofList, Text.lower_of_isLowered hlowered]
  · rw [String.toList_ofList]
    exact List.prefix_append _ _
  · have hlength := hk _ hmem
    rw [String.length_ofList, List.length_append, List.length_replicate] at hlength
    omega

/-- If the prefixes are not readable, there is a name that a prefix covers and no test finds. -/
theorem exists_uncovered (names : List String) (h : ¬ Readable prefixes) :
    ∃ n first, Text.lowered n ∉ names ∧ firstPrefix? prefixes n = some first ∧
      Uncovered names (basicPrefixes prefixes) n := by
  unfold Readable at h
  push Not at h
  obtain ⟨p, hp, hlowered, hnone⟩ := h
  have hbasic : ¬ IsBasic p := fun hb => hnone p hp hb List.prefix_rfl
  obtain ⟨n, hn, hstart, hnew⟩ := exists_new_name names hlowered
  rw [← hn] at hstart hnew
  obtain ⟨first, hfirst⟩ : ∃ first, firstPrefix? prefixes n = some first :=
    Option.isSome_iff_exists.mp (List.find?_isSome.mpr
      ⟨p, hp, List.isPrefixOf_iff_prefix.mpr hstart⟩)
  refine ⟨n, first, hnew, hfirst, hnew, fun q hq hqn => ?_⟩
  obtain ⟨hq, hqbasic⟩ := mem_basicPrefixes.mp hq
  exact hnone q hq hqbasic (prefix_of_not_isBasic hqbasic hbasic hqn hstart)

section

variable (hmark : ∀ name, mark name =
  Redaction.headerClause names (basicPrefixes prefixes) (Text.lowered name))

include hmark

/-- Headers are hidden exactly if the prefixes are readable. -/
theorem hidesFields_iff : HidesFields names prefixes mark ↔ Readable prefixes := by
  constructor
  · intro hhides
    by_contra hr
    obtain ⟨n, first, hn, hfirst, hshown⟩ := exists_uncovered names hr
    have hsame := hhides [(n, "a")] [(n, "b")] (.cons (.prefixed hn hn hfirst hfirst) .nil)
    rw [redactHeaders_ofList hmark, redactHeaders_ofList hmark, List.map_singleton,
      List.map_singleton, shownField_of_uncovered hshown, shownField_of_uncovered hshown] at hsame
    exact absurd (Prod.mk.inj (List.cons.inj hsame).1).2 (by decide)
  · intro hr a b hab
    rw [redactHeaders_ofList hmark, redactHeaders_ofList hmark]
    exact (Outcome.map_eq_of_forall₂ hab fun _ _ h => h.shownField_eq hr).symm

theorem showsFields : ShowsFields names prefixes mark := by
  intro fields i n v hi hn
  have hshown : Uncovered names (basicPrefixes prefixes) n :=
    ⟨hn.1, fun p hp => hn.2 p (mem_basicPrefixes.mp hp).1⟩
  rw [redactHeaders_ofList hmark, List.getElem?_map, hi, Option.map_some,
    shownField_of_uncovered hshown]

end

end

/-! ## Queries and the whole -/

namespace Coverage

variable {c : Coverage}

theorem redactQuery_emitted (params : List (String × String)) :
    c.emitted.redactQuery params = params.map fun f =>
      (Redaction.hide c.queryParams f.1,
        Redaction.hide (c.queryParams || c.queryKeys.contains f.1) f.2) := by
  unfold Redaction.redactQuery
  refine List.map_congr_left fun f _ => ?_
  dsimp only
  rw [queryMark_emitted]

theorem hidesQuery_emitted : c.HidesQuery c.emitted := by
  intro a b hab
  rw [redactQuery_emitted, redactQuery_emitted]
  refine (Outcome.map_eq_of_forall₂ hab fun f g hfg => ?_).symm
  cases hfg with
  | same => rfl
  | keyed hk =>
    rw [List.contains_iff_mem.mpr hk, Bool.or_true]
    rfl
  | whole hw =>
    rw [hw]
    rfl

theorem hidesStatus_emitted : c.HidesStatus c.emitted := by
  rintro a b (hcovered | rfl)
  · unfold Redaction.shownStatus emitted
    rw [hcovered]
    rfl
  · rfl

theorem showsRest_emitted : c.ShowsRest c.emitted where
  requestHeaders := showsFields c.requestMark_emitted
  responseHeaders := showsFields c.responseMark_emitted
  query := by
    intro params i k v hi hparams hk
    have hkey : c.queryKeys.contains k = false :=
      Bool.eq_false_iff.mpr fun h => hk (List.contains_iff_mem.mp h)
    rw [redactQuery_emitted, List.getElem?_map, hi, Option.map_some, hparams, hkey]
    rfl
  status := by
    intro hstatus status
    unfold Redaction.shownStatus emitted
    rw [hstatus]
    rfl

/-- The generated clauses conceal what is covered in a query and in the status, and what is covered
in headers exactly if the prefixes are readable. They show all the rest. -/
theorem emitted_conceals (c : Coverage) :
    (HidesFields c.requestHeaders c.requestPrefixes c.emitted.requestMark ↔
      Readable c.requestPrefixes) ∧
    (HidesFields c.responseHeaders c.responsePrefixes c.emitted.responseMark ↔
      Readable c.responsePrefixes) ∧
    c.HidesQuery c.emitted ∧ c.HidesStatus c.emitted ∧ c.ShowsRest c.emitted :=
  ⟨hidesFields_iff c.requestMark_emitted, hidesFields_iff c.responseMark_emitted,
    hidesQuery_emitted, hidesStatus_emitted, showsRest_emitted⟩

/-- A prefix outside the basic plane is written as two halves, which begin no name. -/
theorem not_emitted_conceals : ¬ ∀ c : Coverage, c.Conceals c.emitted := by
  intro h
  let c : Coverage := ⟨[], [], false, [], ["😀"], [], [], false⟩
  have hreadable := (hidesFields_iff c.requestMark_emitted).mp (h c).requestHeaders
  obtain ⟨q, hq, hbasic, -⟩ := hreadable "😀" List.mem_cons_self (by decide +kernel)
  obtain rfl := List.mem_singleton.mp hq
  exact absurd hbasic (by decide +kernel)

end Coverage

end Wireform
