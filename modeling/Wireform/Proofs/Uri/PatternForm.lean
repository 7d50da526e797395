import Wireform.Proofs.Outcome
import Wireform.Proofs.Text.Pieces
import Wireform.Uri.Pattern

/-
  Wireform URI patterns: what every pattern that was read looks like. Literals are not empty and
  hold no slash, labels have names, no two of them the same, and at most one is greedy.
-/

namespace Wireform

/-- A literal is a text that the grammar lets stand between slashes; a label has a name. -/
def Segment.WellFormed (s : Segment) : Prop :=
  match s.kind with
  | .literal => s.content ≠ "" ∧ s.content.toList.all Pattern.isLiteralChar = true
  | _ => Pattern.isName s.content.toList = true

namespace Pattern

/-- What the reader makes sure of. -/
structure WellFormed (p : Pattern) : Prop where
  segment : ∀ s ∈ p.segments, s.WellFormed
  greedy : (p.segments.filter fun s => s.kind = .greedy).length ≤ 1
  labels : p.labels.Nodup
  slash : p.trailingSlash = true → p.segments ≠ []

/-! ## Segments -/

theorem wellFormed_of_readLabel {s : List Char} {t : Segment} (h : readLabel s = some t) :
    t.WellFormed := by
  unfold readLabel at h
  split at h
  · next hname =>
    cases h
    show isName (String.ofList s).toList = true
    rw [String.toList_ofList]
    exact hname
  · split at h
    · next hname =>
      cases h
      rw [Bool.and_eq_true] at hname
      show isName (String.ofList s.dropLast).toList = true
      rw [String.toList_ofList]
      exact hname.2
    · cases h

theorem wellFormed_of_readSegment {s : List Char} {t : Segment} (h : readSegment s = some t) :
    t.WellFormed := by
  unfold readSegment at h
  split at h
  · split at h
    · exact wellFormed_of_readLabel h
    · cases h
  · split at h
    · next hchars =>
      cases h
      rw [Bool.and_eq_true] at hchars
      refine ⟨fun he => ?_, ?_⟩
      · rw [← String.toList_inj, String.toList_ofList] at he
        rw [he] at hchars
        exact absurd hchars.1 (by decide)
      · show (String.ofList _).toList.all isLiteralChar = true
        rw [String.toList_ofList]
        exact hchars.2
    · cases h

theorem wellFormed_of_mapM_readSegment {ss : List (List Char)} {ts : List Segment}
    (h : ss.mapM readSegment = some ts) {t : Segment} (ht : t ∈ ts) : t.WellFormed := by
  obtain ⟨s, -, hs⟩ := Outcome.exists_of_mem_forall₂ (Outcome.mapM_eq_some.mp h) ht
  exact wellFormed_of_readSegment hs

/-! ## Paths -/

theorem readPath_form {s : List Char} {ts : List Segment} {trailing : Bool}
    (h : readPath s = some (ts, trailing)) :
    (∀ t ∈ ts, t.WellFormed) ∧ (trailing = true → ts ≠ []) := by
  unfold readPath at h
  split at h
  · cases h
    exact ⟨fun t ht => absurd ht List.not_mem_nil, fun h => Bool.noConfusion h⟩
  · rw [Option.map_eq_some_iff] at h
    obtain ⟨us, hus, h⟩ := h
    rw [Prod.mk.injEq] at h
    obtain ⟨rfl, htrailing⟩ := h
    refine ⟨fun t ht => wellFormed_of_mapM_readSegment hus ht, fun ht hnil => ?_⟩
    rw [← htrailing] at ht
    rw [ht, if_pos rfl, hnil] at hus
    have hlen := (Outcome.mapM_eq_some.mp hus).length_eq
    rw [Bool.and_eq_true, decide_eq_true_eq, decide_eq_true_eq] at ht
    rw [List.length_dropLast, List.length_nil] at hlen
    omega

theorem readChars_form {s : List Char} {p : Pattern} (h : readChars s = some p) :
    (∀ t ∈ p.segments, t.WellFormed) ∧ (p.trailingSlash = true → p.segments ≠ []) := by
  unfold readChars at h
  split at h
  · next r =>
    simp only [Option.bind_eq_bind, Option.bind_eq_some_iff, Option.pure_def] at h
    obtain ⟨⟨ts, trailing⟩, hpath, q, -, h⟩ := h
    cases h
    exact readPath_form hpath
  · cases h

/-! ## Labels -/

theorem content_mem_labels {p : Pattern} {s : Segment} (hs : s ∈ p.segments)
    (hlabel : s.isLabel = true) : s.content ∈ p.labels :=
  List.mem_map.mpr ⟨s, List.mem_filter.mpr ⟨hs, hlabel⟩, rfl⟩

theorem mem_labelIndexes {p : Pattern} {n : String} {i : Nat} : (n, i) ∈ p.labelIndexes ↔
    ∃ s, (s, i) ∈ p.segments.zipIdx ∧ s.isLabel = true ∧ s.content = n := by
  unfold labelIndexes
  simp only [List.mem_map, List.mem_filter, Prod.mk.injEq, Prod.exists]
  constructor
  · rintro ⟨s, j, ⟨hs, hlabel⟩, hn, rfl⟩
    exact ⟨s, hs, hlabel, hn⟩
  · rintro ⟨s, hs, hlabel, hn⟩
    exact ⟨s, i, ⟨hs, hlabel⟩, hn, rfl⟩

/-- A label that a pattern has also has an index in it. -/
theorem exists_labelIndex {p : Pattern} {name : String} {s : Segment}
    (h : p.label? name = some s) :
    ((p.labelIndexes.find? (·.1 = name)).map (·.2)).isSome = true := by
  have hs := List.find?_some h
  rw [Bool.and_eq_true, decide_eq_true_eq] at hs
  obtain ⟨i, hi, hsi⟩ := List.getElem_of_mem (List.mem_of_find?_eq_some h)
  have hmem : (name, i) ∈ p.labelIndexes :=
    mem_labelIndexes.mpr ⟨s, List.mem_zipIdx_iff_getElem?.mpr (by rw [← hsi]; simp), hs⟩
  rw [Option.isSome_map, List.find?_isSome]
  exact ⟨(name, i), hmem, by simp⟩

theorem hasRepeats_eq_false {ns : List String} : hasRepeats ns = false ↔ ns.Nodup := by
  induction ns with
  | nil => exact ⟨fun _ => List.nodup_nil, fun _ => rfl⟩
  | cons n ns ih =>
    rw [hasRepeats, Bool.or_eq_false_iff, ih, List.nodup_cons, List.contains_eq_mem,
      decide_eq_false_iff_not]

/-- A text that is read as a pattern gives a well-formed one. -/
theorem wellFormed_of_parse {text : String} {p : Pattern} (h : parse text = .ok p) :
    p.WellFormed := by
  unfold parse at h
  split at h
  · cases h
  · next q hq =>
    split at h
    · cases h
    · next hgreedy =>
      split at h
      · cases h
      · next hrepeats =>
        cases h
        obtain ⟨hsegments, hslash⟩ := readChars_form hq
        rw [Bool.not_eq_true] at hrepeats
        exact ⟨hsegments, by omega, hasRepeats_eq_false.mp hrepeats, hslash⟩

end Pattern

end Wireform
