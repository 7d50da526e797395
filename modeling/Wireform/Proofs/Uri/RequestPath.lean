import Wireform.Proofs.Percent
import Wireform.Proofs.Uri.PatternForm
import Wireform.Uri.Path

/-
  Wireform request paths: what the path of a request is when its labels have values. The parts
  between the slashes are the segments in order; only a greedy label may bring more slashes.
-/

namespace Wireform

/-! ## Filled segments -/

/-- The part of a path for a segment, where a label has the text that `labels` gives it. -/
def Segment.fill (labels : String → String) (s : Segment) : String :=
  match s.kind with
  | .literal => s.content
  | .label => Path.encodeLabel false (labels s.content)
  | .greedy => Path.encodeLabel true (labels s.content)

namespace Pattern

/-- The path of a request whose labels have the given texts. A pattern without segments gives a
single slash. -/
def requestPath (p : Pattern) (labels : String → String) : String :=
  if p.segments.isEmpty then "/"
  else "/" ++ "/".intercalate (p.segments.map (·.fill labels)) ++
    if p.trailingSlash then "/" else ""

/-- The texts between the slashes of the path; a slash at its end is followed by an empty one. -/
def filled (p : Pattern) (labels : String → String) : List (List Char) :=
  p.segments.map (fun s => (s.fill labels).toList) ++ if p.trailingSlash then [[]] else []

theorem toList_requestPath {p : Pattern} (hp : p.WellFormed) (labels : String → String) :
    (p.requestPath labels).toList = '/' :: Text.join '/' (p.filled labels) := by
  have hmap : (p.segments.map (·.fill labels)).map String.toList =
      p.segments.map fun s => (s.fill labels).toList := by
    rw [List.map_map]
    rfl
  have hslash : "/" = String.singleton '/' := rfl
  unfold requestPath filled
  cases hs : p.segments with
  | nil =>
    cases ht : p.trailingSlash with
    | false =>
      rw [List.isEmpty_nil, if_pos rfl, hslash, String.toList_singleton]
      rfl
    | true => exact absurd hs (hp.slash ht)
  | cons s r =>
    rw [← hs, if_neg (by simp [hs]), String.toList_append, String.toList_append, hslash,
      Text.toList_intercalate_singleton, hmap, String.toList_singleton]
    cases ht : p.trailingSlash with
    | false =>
      rw [if_neg Bool.false_ne_true, if_neg Bool.false_ne_true, List.append_nil]
      exact List.append_nil _
    | true =>
      rw [if_pos rfl, if_pos rfl, Text.join_append _ (by simp [hs]) (List.cons_ne_nil _ _)]
      rfl

end Pattern

namespace Segment

variable {s : Segment} {labels : String → String}

theorem toList_encodeLabel (greedy : Bool) (t : String) :
    (Path.encodeLabel greedy t).toList =
      Percent.encode (fun c => greedy && c = '/') t.toList := String.toList_ofList

theorem slash_not_mem_encodeLabel (t : String) : '/' ∉ (Path.encodeLabel false t).toList := by
  rw [toList_encodeLabel]
  intro h
  rcases Percent.mem_encode h with h | h | h
  · exact absurd h (by decide)
  · exact absurd h (by decide)
  · exact absurd h (by decide)

theorem encodeLabel_ne_nil (greedy : Bool) {t : String} (h : t ≠ "") :
    (Path.encodeLabel greedy t).toList ≠ [] := by
  rw [toList_encodeLabel]
  exact Percent.encode_ne_nil fun he => h (String.toList_eq_nil_iff.mp he)

/-- A segment that is not greedy stays one part, and it is not empty. -/
theorem fill_form (hs : s.WellFormed) (hg : s.kind ≠ .greedy)
    (hne : s.isLabel = true → labels s.content ≠ "") :
    (s.fill labels).toList ≠ [] ∧ '/' ∉ (s.fill labels).toList := by
  unfold WellFormed at hs
  unfold fill
  cases hk : s.kind with
  | literal =>
    rw [hk] at hs
    refine ⟨fun h => hs.1 (String.toList_eq_nil_iff.mp h), fun h => ?_⟩
    exact absurd (List.all_eq_true.mp hs.2 _ h) (by decide)
  | label =>
    have hlabel : s.isLabel = true := by
      unfold isLabel
      rw [hk]
      rfl
    exact ⟨encodeLabel_ne_nil false (hne hlabel), slash_not_mem_encodeLabel _⟩
  | greedy => exact absurd hk hg

/-- Only the value of its own label changes a segment. -/
theorem fill_congr {a b : String → String} (h : s.isLabel = true → a s.content = b s.content) :
    s.fill a = s.fill b := by
  unfold isLabel at h
  unfold fill
  cases hk : s.kind with
  | literal => rfl
  | label => rw [hk] at h; rw [h rfl]
  | greedy => rw [hk] at h; rw [h rfl]

end Segment

/-! ## Parts -/

namespace Pattern

/-- The parts that a path has when its labels have the given texts: one for each segment, but as
many for a greedy label as its text has. -/
def partsOf (p : Pattern) (labels : String → String) : List (List Char) :=
  (p.filled labels).flatMap (Text.pieces '/')

theorem partsOf_append {p : Pattern} {before rest : List Segment} (hp : p.WellFormed)
    (hsplit : p.segments = before ++ rest) (hbefore : ∀ s ∈ before, s.kind ≠ .greedy)
    {labels : String → String} (hne : ∀ n ∈ p.labels, labels n ≠ "") :
    p.partsOf labels = before.map (fun s => (s.fill labels).toList) ++
      (rest.map (fun s : Segment => (s.fill labels).toList) ++
        if p.trailingSlash then [[]] else []).flatMap (Text.pieces '/') := by
  have hplain : ∀ t ∈ before.map (fun s => (s.fill labels).toList), '/' ∉ t := by
    intro t ht
    obtain ⟨s, hs, rfl⟩ := List.mem_map.mp ht
    have hmem : s ∈ p.segments := hsplit ▸ List.mem_append_left rest hs
    exact (Segment.fill_form (hp.segment s hmem) (hbefore s hs)
      fun hl => hne _ (content_mem_labels hmem hl)).2
  unfold partsOf filled
  rw [hsplit, List.map_append, List.append_assoc, List.flatMap_append,
    Text.flatMap_pieces_of_not_mem hplain]

end Pattern

end Wireform
