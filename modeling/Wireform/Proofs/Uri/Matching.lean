import Wireform.Proofs.Entries
import Wireform.Proofs.Uri.PathRoundTrip

/-
  Wireform paths: which paths fit a pattern. `HasParts` says what the parts of a path are, without
  any reading, and `Fits` how they are cut into blocks, one for each segment in order. The reader
  takes one block after the other (`matchParts_cons_eq_ok`). `labelsOf_iff_fits` says that it finds a
  cut exactly if there is one, and that the text of every label is its block.
-/

namespace Wireform

/-! ## Parts of a path -/

namespace Path

/-- The parts of a path stand between single slashes, with any slashes around them and any query
behind; neither the first nor the last one is empty. -/
structure HasParts (path : String) (ps : List (List Char)) : Prop where
  chars : ∃ i j query, path.toList = List.replicate i '/' ++ (Text.join '/' ps ++
    (List.replicate j '/' ++ query)) ∧ (query = [] ∨ ∃ r, query = '?' :: r)
  plain : ∀ p ∈ ps, '/' ∉ p ∧ '?' ∉ p
  first : ps.head? ≠ some []
  last : ps.getLast? ≠ some []

variable {path : String} {ps : List (List Char)}

theorem parts_eq_core (path : String) :
    parts path = Text.core (Text.pieces '/' (Text.cut '?' path.toList).1) := by
  rw [← Text.parts_trim]
  rfl

/-- What stands before the query. -/
theorem HasParts.exists_cut (h : HasParts path ps) : ∃ i j, (Text.cut '?' path.toList).1 =
    List.replicate i '/' ++ (Text.join '/' ps ++ List.replicate j '/') := by
  obtain ⟨i, j, query, hpath, hquery⟩ := h.chars
  have hslash : ∀ n : Nat, '?' ∉ List.replicate n '/' := fun n hmem =>
    absurd (List.eq_of_mem_replicate hmem) (by decide)
  have hjoin : '?' ∉ Text.join '/' ps := by
    intro hmem
    rcases Text.mem_join hmem with hmem | ⟨p, hp, hmem⟩
    · exact absurd hmem (by decide)
    · exact (h.plain p hp).2 hmem
  have hplain : '?' ∉ List.replicate i '/' ++ (Text.join '/' ps ++ List.replicate j '/') := by
    rw [List.mem_append, List.mem_append, not_or, not_or]
    exact ⟨hslash i, hjoin, hslash j⟩
  refine ⟨i, j, ?_⟩
  rw [hpath, ← List.append_assoc (Text.join '/' ps), ← List.append_assoc (List.replicate i '/')]
  rcases hquery with rfl | ⟨r, rfl⟩
  · rw [List.append_nil, Text.cut_of_not_mem hplain]
  · rw [Text.cut_append_sep hplain]

theorem HasParts.core_pieces (h : HasParts path ps) :
    Text.core (Text.pieces '/' (Text.join '/' ps)) = ps := by
  by_cases hps : ps = []
  · rw [hps]
    rfl
  · rw [Text.pieces_join '/' hps, Text.flatMap_pieces_of_not_mem fun p hp => (h.plain p hp).1]
    exact Text.core_eq_self h.first h.last

theorem hasParts_parts (path : String) : HasParts path (parts path) := by
  cases hcut : Text.cut '?' path.toList with
  | mk s query =>
    obtain ⟨hquery, hpath⟩ := Text.of_cut hcut
    obtain ⟨i, j, hs⟩ := Text.exists_trim_around '/' s
    have hcore : parts path = Text.core (Text.pieces '/' s) := by
      rw [parts_eq_core, hcut]
    constructor
    · refine ⟨i, j, (query.map ('?' :: ·)).getD [], ?_, ?_⟩
      · rw [hcore, ← Text.parts_trim, Text.join_parts, hpath]
        nth_rewrite 1 [hs]
        rw [List.append_assoc, List.append_assoc]
      · cases query with
        | none => exact Or.inl rfl
        | some r => exact Or.inr ⟨r, rfl⟩
    · intro p hp
      have hpiece : p ∈ Text.pieces '/' s := Text.mem_of_mem_core (hcore ▸ hp)
      exact ⟨Text.not_mem_of_mem_pieces hpiece, fun h => hquery (Text.mem_of_mem_pieces hpiece h)⟩
    · rw [hcore]
      exact Text.head?_core _
    · rw [hcore]
      exact Text.getLast?_core _

/-- A path has its parts and no others. -/
theorem hasParts_iff : HasParts path ps ↔ parts path = ps := by
  constructor
  · intro h
    obtain ⟨i, j, hcut⟩ := h.exists_cut
    rw [parts_eq_core, hcut, Text.pieces_replicate_append, Text.pieces_append_replicate,
      Text.core_between, h.core_pieces]
  · rintro rfl
    exact hasParts_parts path

end Path

/-! ## Blocks -/

/-- The parts that a segment may stand for: a literal for itself, a label for one part that is not
empty, and a greedy label for one part or more. -/
def Segment.Takes (s : Segment) (block : List (List Char)) : Prop :=
  match s.kind with
  | .literal => block = [s.content.toList]
  | .label => ∃ p, p ≠ [] ∧ block = [p]
  | .greedy => block ≠ []

namespace Path

open Segment (names)

/-- A path fits segments if its parts can be cut into blocks, one for each segment in order. -/
structure Fits (segments : List Segment) (path : String) (blocks : List (List (List Char))) :
    Prop where
  parts : HasParts path blocks.flatten
  takes : List.Forall₂ Segment.Takes segments blocks

/-- The text that a block stands for. -/
def blockText (block : List (List Char)) : String :=
  String.ofList (Percent.decode (Text.join '/' block))

/-- A label with the text of its block; a literal gives nothing. -/
def entry (s : Segment) (block : List (List Char)) : List (String × String) :=
  if s.isLabel then [(s.content, blockText block)] else []

/-- The labels among segments in order, each with the text of its block. -/
def bound (segments : List Segment) (blocks : List (List (List Char))) : List (String × String) :=
  (List.zipWith entry segments blocks).flatten

variable {s : Segment} {segments : List Segment} {block : List (List Char)}
  {blocks : List (List (List Char))}

theorem length_of_takes (h : s.Takes block) (hs : s.kind ≠ .greedy) : block.length = 1 := by
  unfold Segment.Takes at h
  cases hk : s.kind with
  | literal =>
    rw [hk] at h
    rw [show block = [s.content.toList] from h, List.length_singleton]
  | label =>
    rw [hk] at h
    obtain ⟨p, -, rfl⟩ := h
    exact List.length_singleton
  | greedy => exact absurd hk hs

/-- Segments that are not greedy take as many parts as they are. -/
theorem length_flatten_of_plain (h : List.Forall₂ Segment.Takes segments blocks)
    (hplain : ∀ s ∈ segments, s.kind ≠ .greedy) : blocks.flatten.length = segments.length := by
  induction h with
  | nil => rfl
  | @cons s block segments blocks hs _ ih =>
    have hone := length_of_takes hs (hplain s List.mem_cons_self)
    have hrest := ih fun t ht => hplain t (List.mem_cons_of_mem s ht)
    rw [List.flatten_cons, List.length_append, List.length_cons]
    omega

/-- Behind a greedy segment there is no further one. -/
theorem plain_of_greedy (hone : ((s :: segments).filter fun s => s.kind = .greedy).length ≤ 1)
    (hs : s.kind = .greedy) : ∀ t ∈ segments, t.kind ≠ .greedy := by
  rw [List.filter_cons_of_pos (by simpa using hs), List.length_cons] at hone
  intro t ht hk
  have hmem : t ∈ segments.filter fun s => s.kind = .greedy := List.mem_filter.mpr ⟨ht, by simpa⟩
  have hpos := List.length_pos_of_mem hmem
  omega

theorem one_greedy_of_cons (hone : ((s :: segments).filter fun s => s.kind = .greedy).length ≤ 1) :
    (segments.filter fun s => s.kind = .greedy).length ≤ 1 := by
  have hle := ((List.sublist_cons_self s segments).filter fun s => s.kind = .greedy).length_le
  omega

/-- A path fits segments in one way only. -/
theorem Fits.unique {path : String} {blocks' : List (List (List Char))}
    (hone : (segments.filter fun s => s.kind = .greedy).length ≤ 1) (h : Fits segments path blocks)
    (h' : Fits segments path blocks') : blocks = blocks' := by
  have hparts : blocks.flatten = blocks'.flatten := by
    rw [← hasParts_iff.mp h.parts, ← hasParts_iff.mp h'.parts]
  obtain ⟨-, htakes⟩ := h
  obtain ⟨-, htakes'⟩ := h'
  induction htakes generalizing blocks' with
  | nil =>
    cases htakes'
    rfl
  | @cons s block segments blocks hs htakes ih =>
    cases htakes' with
    | @cons _ block' _ blocks' hs' htakes' =>
      rw [List.flatten_cons, List.flatten_cons] at hparts
      -- the segments behind a greedy one take one part each, so its block has a fixed length too
      have hlength : block.length = block'.length := by
        by_cases hk : s.kind = .greedy
        · have hplain := plain_of_greedy hone hk
          have hrest := length_flatten_of_plain htakes hplain
          have hrest' := length_flatten_of_plain htakes' hplain
          have hsum := congrArg List.length hparts
          rw [List.length_append, List.length_append] at hsum
          omega
        · rw [length_of_takes hs hk, length_of_takes hs' hk]
      obtain ⟨hblock, hblocks⟩ := List.append_inj hparts hlength
      rw [hblock, ih (one_greedy_of_cons hone) hblocks htakes']

/-! ## One segment -/

/-- Entries with the text of a block for a label; a literal adds nothing. -/
def record (s : Segment) (block : List (List Char)) (found : List (String × String)) :
    List (String × String) :=
  if s.isLabel then Entries.put s.content (blockText block) found else found

/-- What the reader does with one segment: it takes a block for it, which for a greedy one leaves a
part for each segment behind it. -/
theorem matchParts_cons_eq_ok {path : String} {ps : List (List Char)}
    {found labels : List (String × String)} :
    matchParts path (s :: segments) ps found = .ok labels ↔ ∃ block rest, ps = block ++ rest ∧
      s.Takes block ∧ (s.kind = .greedy → rest.length = segments.length) ∧
        matchParts path segments rest (record s block found) = .ok labels := by
  obtain ⟨kind, content⟩ := s
  cases kind with
  | literal =>
    constructor
    · intro h
      cases ps with
      | nil => cases h
      | cons p ps =>
        rw [matchParts] at h
        split at h
        · next hp =>
          have hblock : Segment.Takes ⟨.literal, content⟩ [p] := by
            rw [← hp]
            exact congrArg (fun t => [t]) String.toList_ofList.symm
          exact ⟨[p], ps, rfl, hblock, fun hk => SegmentKind.noConfusion hk, h⟩
        · cases h
    · rintro ⟨block, rest, rfl, hblock, -, h⟩
      rw [show block = [content.toList] from hblock, List.singleton_append, matchParts,
        if_pos String.ofList_toList]
      exact h
  | label =>
    constructor
    · intro h
      cases ps with
      | nil => cases h
      | cons p ps =>
        rw [matchParts] at h
        split at h
        · cases h
        · next hp =>
          exact ⟨[p], ps, rfl, ⟨p, by simpa using hp, rfl⟩, fun hk => SegmentKind.noConfusion hk, h⟩
    · rintro ⟨block, rest, rfl, ⟨p, hp, rfl⟩, -, h⟩
      rw [List.singleton_append, matchParts, if_neg (by simpa using hp)]
      exact h
  | greedy =>
    constructor
    · intro h
      by_cases hlength : ps.length ≤ segments.length
      · rw [matchParts, if_pos hlength] at h
        cases h
      · have hblock : ps.take (ps.length - segments.length) ≠ [] := by
          rw [ne_eq, List.take_eq_nil_iff]
          rintro (hzero | rfl)
          · omega
          · exact hlength (Nat.zero_le _)
        rw [matchParts, if_neg hlength] at h
        refine ⟨_, _, (List.take_append_drop _ ps).symm, hblock, fun _ => ?_, h⟩
        rw [List.length_drop]
        omega
    · rintro ⟨block, rest, rfl, hblock, hrest, h⟩
      rw [matchParts_greedy path content (hrest rfl), if_neg hblock]
      exact h

/-! ## All segments -/

theorem keys_entry (s : Segment) (block : List (List Char)) :
    Entries.keys (entry s block) = names [s] := by
  unfold Entries.keys entry names
  cases hs : s.isLabel with
  | false => simp [hs]
  | true => simp [hs]

theorem keys_bound (h : List.Forall₂ Segment.Takes segments blocks) :
    Entries.keys (bound segments blocks) = names segments := by
  induction h with
  | nil => rfl
  | @cons s block segments blocks _ _ ih =>
    have hcons : bound (s :: segments) (block :: blocks) =
        entry s block ++ bound segments blocks := rfl
    rw [hcons, Entries.keys_append, keys_entry, ih]
    exact (Segment.names_append [s] segments).symm

/-- A label that was not found before comes last. -/
theorem record_eq {found : List (String × String)} (block : List (List Char))
    (hnew : (Entries.keys found ++ names [s]).Nodup) :
    record s block found = found ++ entry s block := by
  unfold record entry
  cases hs : s.isLabel with
  | false => exact (List.append_nil found).symm
  | true =>
    have hname : s.content ∉ Entries.keys found := by
      intro hmem
      have hin : s.content ∈ names [s] := by simp [names, hs]
      exact (List.nodup_append.mp hnew).2.2 _ hmem _ hin rfl
    exact Entries.put_of_not_mem hname (blockText block)

/-- What the reader finds for segments: the labels by a cut of the parts into blocks. -/
theorem matchParts_eq_ok {path : String} {ps : List (List Char)}
    {found labels : List (String × String)}
    (hone : (segments.filter fun s => s.kind = .greedy).length ≤ 1)
    (hnew : (Entries.keys found ++ names segments).Nodup) :
    matchParts path segments ps found = .ok labels ↔ ∃ blocks,
      List.Forall₂ Segment.Takes segments blocks ∧ blocks.flatten = ps ∧
        labels = found ++ bound segments blocks := by
  -- the labels found so far stay in front, since no name comes twice
  induction segments generalizing ps found with
  | nil =>
    constructor
    · intro h
      rw [matchParts] at h
      split at h
      · next hps =>
        cases h
        exact ⟨[], List.Forall₂.nil, (List.isEmpty_iff.mp hps).symm, (List.append_nil _).symm⟩
      · cases h
    · rintro ⟨blocks, htakes, rfl, rfl⟩
      cases htakes
      rw [matchParts]
      exact congrArg Except.ok (List.append_nil found).symm
  | cons s segments ih =>
    have hnames : names (s :: segments) = names [s] ++ names segments :=
      Segment.names_append [s] segments
    rw [hnames, ← List.append_assoc] at hnew
    have hrecord : ∀ block, record s block found = found ++ entry s block := fun block =>
      record_eq block (List.nodup_append.mp hnew).1
    have hrest : ∀ block, (Entries.keys (record s block found) ++ names segments).Nodup := by
      intro block
      rw [hrecord, Entries.keys_append, keys_entry]
      exact hnew
    have hcons : ∀ block blocks, found ++ bound (s :: segments) (block :: blocks) =
        record s block found ++ bound segments blocks := by
      intro block blocks
      rw [hrecord, List.append_assoc]
      rfl
    rw [matchParts_cons_eq_ok]
    constructor
    · rintro ⟨block, rest, rfl, hblock, -, h⟩
      obtain ⟨blocks, htakes, rfl, rfl⟩ := (ih (one_greedy_of_cons hone) (hrest block)).mp h
      exact ⟨block :: blocks, List.Forall₂.cons hblock htakes, List.flatten_cons,
        (hcons block blocks).symm⟩
    · rintro ⟨blocks, htakes, rfl, rfl⟩
      cases htakes with
      | @cons _ block _ blocks hblock htakes =>
        refine ⟨block, blocks.flatten, List.flatten_cons, hblock, fun hk => ?_, ?_⟩
        · exact length_flatten_of_plain htakes (plain_of_greedy hone hk)
        · apply (ih (one_greedy_of_cons hone) (hrest block)).mpr
          exact ⟨blocks, htakes, rfl, hcons block blocks⟩

theorem labelsOf_eq_ok (hone : (segments.filter fun s => s.kind = .greedy).length ≤ 1)
    (hnames : (names segments).Nodup) {path : String} {labels : List (String × String)} :
    labelsOf segments path = .ok labels ↔
      ∃ blocks, Fits segments path blocks ∧ labels = bound segments blocks := by
  have hfits : ∀ blocks, Fits segments path blocks ↔
      List.Forall₂ Segment.Takes segments blocks ∧ blocks.flatten = parts path := by
    intro blocks
    constructor
    · intro h
      exact ⟨h.takes, (hasParts_iff.mp h.parts).symm⟩
    · rintro ⟨htakes, hparts⟩
      exact ⟨hasParts_iff.mpr hparts.symm, htakes⟩
  have hnew : (Entries.keys ([] : List (String × String)) ++ names segments).Nodup := hnames
  unfold labelsOf
  rw [matchParts_eq_ok hone hnew]
  simp only [hfits, List.nil_append, and_assoc]

/-- The reader gives labels for a path exactly if the path fits the segments, each label with the
text of its block, and refuses every other path. A path fits in one way only. -/
theorem labelsOf_iff_fits (hone : (segments.filter fun s => s.kind = .greedy).length ≤ 1)
    (hnames : (names segments).Nodup) (path : String) :
    (∀ labels, labelsOf segments path = .ok labels ↔
      ∃ blocks, Fits segments path blocks ∧ labels = bound segments blocks) ∧
    ((∃ e : ParseError, labelsOf segments path = .error e) ↔
      ∀ blocks, ¬ Fits segments path blocks) ∧
    ∀ blocks blocks', Fits segments path blocks → Fits segments path blocks' →
      blocks = blocks' := by
  refine ⟨fun labels => labelsOf_eq_ok hone hnames, ⟨?_, ?_⟩, fun blocks blocks' h h' => ?_⟩
  · rintro ⟨e, he⟩ blocks hfits
    have hok := (labelsOf_eq_ok hone hnames).mpr ⟨blocks, hfits, rfl⟩
    rw [he] at hok
    cases hok
  · intro hnone
    cases hresult : labelsOf segments path with
    | error e => exact ⟨e, rfl⟩
    | ok labels =>
      obtain ⟨blocks, hfits, -⟩ := (labelsOf_eq_ok hone hnames).mp hresult
      exact absurd hfits (hnone blocks)
  · exact h.unique hone h'

/-- A greedy label between others takes an empty part with it. -/
theorem labelsOf_fitting_path :
    (([⟨.literal, "files"⟩, ⟨.greedy, "Path"⟩, ⟨.label, "Id"⟩] : List Segment).filter
      fun s => s.kind = .greedy).length ≤ 1 ∧
    (names [⟨.literal, "files"⟩, ⟨.greedy, "Path"⟩, ⟨.label, "Id"⟩]).Nodup ∧
    labelsOf [⟨.literal, "files"⟩, ⟨.greedy, "Path"⟩, ⟨.label, "Id"⟩]
      "//files/a%20b//c/7/?x=1" = .ok [("Path", "a b//c"), ("Id", "7")] := by
  have hone : (([⟨.literal, "files"⟩, ⟨.greedy, "Path"⟩, ⟨.label, "Id"⟩] : List Segment).filter
      fun s => s.kind = .greedy).length ≤ 1 := by decide
  have hnames : (names [⟨.literal, "files"⟩, ⟨.greedy, "Path"⟩, ⟨.label, "Id"⟩]).Nodup := by decide
  have hparts : HasParts "//files/a%20b//c/7/?x=1" (List.flatten
      [["files".toList], ["a%20b".toList, [], "c".toList], ["7".toList]]) :=
    hasParts_iff.mpr (by decide)
  have htakes : List.Forall₂ Segment.Takes
      [⟨.literal, "files"⟩, ⟨.greedy, "Path"⟩, ⟨.label, "Id"⟩]
      [["files".toList], ["a%20b".toList, [], "c".toList], ["7".toList]] := by
    refine .cons rfl (.cons ?_ (.cons ⟨_, ?_, rfl⟩ .nil))
    · exact List.cons_ne_nil _ _
    · decide
  have hbound : [("Path", "a b//c"), ("Id", "7")] =
      bound [⟨.literal, "files"⟩, ⟨.greedy, "Path"⟩, ⟨.label, "Id"⟩]
        [["files".toList], ["a%20b".toList, [], "c".toList], ["7".toList]] := by
    decide +kernel
  exact ⟨hone, hnames, ((labelsOf_iff_fits hone hnames _).1 _).mpr ⟨_, ⟨hparts, htakes⟩, hbound⟩⟩

end Path

end Wireform
