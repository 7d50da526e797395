import Wireform.Proofs.Uri.Matching

/-
  Wireform paths: labels that a path leaves empty. A plain label never is; a greedy one is empty if
  its place in the path is a single empty part, which only two slashes between other segments make.
  `labelsOf_full_iff` says that there is no other way.
-/

namespace Wireform

namespace Path

open Segment (names)

variable {segments before after : List Segment} {s : Segment} {blocks : List (List (List Char))}

/-- A segment has its own block, between the blocks of the segments around it. -/
theorem exists_block
    (h : List.Forall₂ Segment.Takes (before ++ (s :: after)) blocks) :
    ∃ bs block cs, blocks = bs ++ (block :: cs) ∧ List.Forall₂ Segment.Takes before bs ∧
      s.Takes block ∧ List.Forall₂ Segment.Takes after cs := by
  have hbefore := (List.forall₂_take_append blocks before (s :: after) h.flip).flip
  have hrest := (List.forall₂_drop_append blocks before (s :: after) h.flip).flip
  obtain ⟨block, cs, hs, hafter, hdrop⟩ := List.forall₂_cons_left_iff.mp hrest
  refine ⟨_, block, cs, ?_, hbefore, hs, hafter⟩
  rw [← hdrop, List.take_append_drop]

theorem bound_append {bs cs : List (List (List Char))}
    (h : List.Forall₂ Segment.Takes before bs) (after : List Segment) :
    bound (before ++ after) (bs ++ cs) = bound before bs ++ bound after cs := by
  unfold bound
  rw [List.zipWith_append h.length_eq, List.flatten_append]

theorem blockText_eq_empty {block : List (List Char)} :
    blockText block = "" ↔ block = [] ∨ block = [[]] := by
  unfold blockText
  rw [← String.toList_inj, String.toList_ofList, String.toList_empty, Percent.decode_eq_nil]
  constructor
  · intro h
    cases block with
    | nil => exact Or.inl rfl
    | cons p ps =>
      by_cases hps : ps = []
      · rw [hps] at h ⊢
        exact Or.inr (congrArg (fun q => [q]) h)
      · rw [Text.join_cons '/' p hps] at h
        exact absurd h (by simp)
  · rintro (rfl | rfl)
    · rfl
    · rfl

/-- The text of a plain label is not empty. -/
theorem blockText_ne_empty {block : List (List Char)} (h : s.Takes block) (hs : s.kind = .label) :
    blockText block ≠ "" := by
  unfold Segment.Takes at h
  rw [hs] at h
  obtain ⟨p, hp, rfl⟩ := h
  rw [ne_eq, blockText_eq_empty]
  rintro (h | h)
  · exact List.cons_ne_nil _ _ h
  · exact hp (List.cons.inj h).1

end Path

namespace Pattern

open Wireform.Path

variable {p : Pattern} {path name : String} {labels : List (String × String)}

/-- A path leaves the greedy label of a pattern empty: where the label stands among the segments,
the parts have one part, and that part is empty. -/
def LeavesEmpty (p : Pattern) (path name : String) : Prop :=
  ∃ before after ps qs, GreedyAt p before name after ∧ parts path = ps ++ ([] :: qs) ∧
    ps.length = before.length ∧ qs.length = after.length

/-- The block of a label gives it its text. -/
theorem exists_get? (hp : p.WellFormed) (h : labelsOf p.segments path = .ok labels)
    {before after : List Segment} {s : Segment} (hsplit : p.segments = before ++ (s :: after))
    (hlabel : s.isLabel = true) :
    ∃ bs block cs, parts path = bs.flatten ++ (block ++ cs.flatten) ∧
      List.Forall₂ Segment.Takes before bs ∧ s.Takes block ∧ List.Forall₂ Segment.Takes after cs ∧
        Entries.get? s.content labels = some (blockText block) := by
  obtain ⟨blocks, hfits, rfl⟩ := (labelsOf_eq_ok hp.greedy (nodup_names hp)).mp h
  have htakes := hfits.takes
  rw [hsplit] at htakes
  obtain ⟨bs, block, cs, rfl, hbefore, hs, hafter⟩ := exists_block htakes
  have hmem : (s.content, blockText block) ∈ bound p.segments (bs ++ (block :: cs)) := by
    have hentry : (s.content, blockText block) ∈ entry s block := by
      unfold entry
      rw [if_pos hlabel]
      exact List.mem_singleton_self _
    rw [hsplit, bound_append hbefore]
    exact List.mem_append_right _ (List.mem_append_left _ hentry)
  refine ⟨bs, block, cs, ?_, hbefore, hs, hafter, ?_⟩
  · rw [hasParts_iff.mp hfits.parts, List.flatten_append, List.flatten_cons]
  · apply Entries.get?_of_mem _ hmem
    rw [keys_bound hfits.takes]
    exact nodup_names hp

theorem get?_of_leavesEmpty (hp : p.WellFormed) (h : labelsOf p.segments path = .ok labels)
    (hempty : p.LeavesEmpty path name) : Entries.get? name labels = some "" := by
  obtain ⟨before, after, ps, qs, hat, hparts, hps, hqs⟩ := hempty
  obtain ⟨bs, block, cs, hblocks, hbefore, -, hafter, hget⟩ := exists_get? hp h hat.split rfl
  have hbs := length_flatten_of_plain hbefore hat.before_plain
  have hcs := length_flatten_of_plain hafter hat.after_plain
  have hrest : block ++ cs.flatten = [[]] ++ qs :=
    (List.append_inj (hblocks.symm.trans hparts) (by omega)).2
  have hlength := congrArg List.length hrest
  rw [List.length_append, List.length_append, List.length_singleton] at hlength
  have hblock : block = [[]] := (List.append_inj hrest (by rw [List.length_singleton]; omega)).1
  rw [hget, blockText_eq_empty.mpr (Or.inr hblock)]

/-- Every label of a pattern has a text, and only a greedy label can have an empty one. -/
theorem exists_text (hp : p.WellFormed) (h : labelsOf p.segments path = .ok labels)
    (hname : name ∈ p.labels) :
    ∃ t, Entries.get? name labels = some t ∧ (t = "" → p.LeavesEmpty path name) := by
  obtain ⟨s, hs, rfl⟩ := List.mem_map.mp hname
  obtain ⟨hmem, hlabel⟩ := List.mem_filter.mp hs
  cases hk : s.kind with
  | literal =>
    unfold Segment.isLabel at hlabel
    rw [hk] at hlabel
    exact absurd hlabel (by decide)
  | label =>
    obtain ⟨before, after, hsplit⟩ := List.append_of_mem hmem
    obtain ⟨bs, block, cs, -, -, htakes, -, hget⟩ := exists_get? hp h hsplit hlabel
    exact ⟨_, hget, fun ht => absurd ht (blockText_ne_empty htakes hk)⟩
  | greedy =>
    obtain ⟨before, after, hat⟩ := exists_greedyAt hp hmem hk
    obtain ⟨bs, block, cs, hparts, hbefore, htakes, hafter, hget⟩ := exists_get? hp h hat.split rfl
    refine ⟨_, hget, fun ht => ?_⟩
    have hblock : block = [[]] := (blockText_eq_empty.mp ht).resolve_left htakes
    rw [hblock] at hparts
    exact ⟨before, after, bs.flatten, cs.flatten, hat, hparts,
      length_flatten_of_plain hbefore hat.before_plain,
      length_flatten_of_plain hafter hat.after_plain⟩

/-- No empty part stands at an end of a path. -/
theorem LeavesEmpty.inside (h : p.LeavesEmpty path name) :
    p.segments.head? ≠ some ⟨.greedy, name⟩ ∧ p.segments.getLast? ≠ some ⟨.greedy, name⟩ := by
  obtain ⟨before, after, ps, qs, hat, hparts, hps, hqs⟩ := h
  have hends := hasParts_parts path
  rw [hparts] at hends
  constructor
  · intro hhead
    rw [hat.head?_eq_iff.mp hhead, List.length_nil, List.length_eq_zero_iff] at hps
    apply hends.first
    rw [hps]
    rfl
  · intro hlast
    rw [hat.getLast?_eq_iff.mp hlast, List.length_nil, List.length_eq_zero_iff] at hqs
    apply hends.last
    rw [hqs, List.getLast?_concat]

/-- A path that fits a pattern gives every label a text. The text is empty exactly if the label is
greedy and stands, between other segments, for a single part that is empty. -/
theorem labelsOf_full_iff {text : String} (h : parse text = .ok p)
    (hmatch : labelsOf p.segments path = .ok labels) :
    (∀ n ∈ p.labels, ∃ t, Entries.get? n labels = some t ∧ (t = "" ↔ p.LeavesEmpty path n)) ∧
      ∀ n, p.LeavesEmpty path n →
        p.segments.head? ≠ some ⟨.greedy, n⟩ ∧ p.segments.getLast? ≠ some ⟨.greedy, n⟩ := by
  have hp := wellFormed_of_parse h
  refine ⟨fun n hn => ?_, fun n hempty => hempty.inside⟩
  obtain ⟨t, hget, ht⟩ := exists_text hp hmatch hn
  refine ⟨t, hget, ht, fun hempty => ?_⟩
  have hnone := get?_of_leavesEmpty hp hmatch hempty
  rw [hget] at hnone
  exact Option.some.inj hnone

/-- Two empty parts leave a slash to a greedy label. -/
theorem labelsOf_full_of_slashes :
    ∃ p, parse "/a/{Key+}/b" = .ok p ∧
      labelsOf p.segments "/a///b" = .ok [("Key", "/")] ∧ ¬ p.LeavesEmpty "/a///b" "Key" := by
  have hparse : parse "/a/{Key+}/b" =
      .ok ⟨[⟨.literal, "a"⟩, ⟨.greedy, "Key"⟩, ⟨.literal, "b"⟩], false, []⟩ := rfl
  have hmatch : labelsOf [⟨.literal, "a"⟩, ⟨.greedy, "Key"⟩, ⟨.literal, "b"⟩] "/a///b" =
      .ok [("Key", "/")] := by decide +kernel
  refine ⟨_, hparse, hmatch, fun hempty => ?_⟩
  obtain ⟨t, hget, ht⟩ := (labelsOf_full_iff hparse hmatch).1 "Key" (by decide)
  rw [← Option.some.inj hget] at ht
  exact absurd (ht.mpr hempty) (by decide)

/-- Two slashes between literals leave a greedy label empty. -/
theorem not_every_label_full :
    ∃ p labels, parse "/a/{Key+}/b" = .ok p ∧ labelsOf p.segments "/a//b" = .ok labels ∧
      "Key" ∈ p.labels ∧ Entries.get? "Key" labels = some "" := by
  have hparse : parse "/a/{Key+}/b" =
      .ok ⟨[⟨.literal, "a"⟩, ⟨.greedy, "Key"⟩, ⟨.literal, "b"⟩], false, []⟩ := rfl
  have hmatch : labelsOf [⟨.literal, "a"⟩, ⟨.greedy, "Key"⟩, ⟨.literal, "b"⟩] "/a//b" =
      .ok [("Key", "")] := by decide +kernel
  exact ⟨_, _, hparse, hmatch, by decide, rfl⟩

end Pattern

end Wireform
