import Wireform.Proofs.Text.OuterPieces
import Wireform.Proofs.Uri.RequestPath

/-
  Wireform paths: labels that are written into the path of a request and read back from it. The
  reader drops all slashes around a path, so it gives back every label of a pattern but for slashes
  at the outer end of a greedy label that starts or ends the pattern: `labelsOf_requestPath` says
  what it reads then.
-/

namespace Wireform

/-! ## Labels -/

namespace Path

theorem isAscii_of_kept (greedy : Bool) (c : Char) (h : (greedy && decide (c = '/')) = true) :
    Text.isAscii c = true ∧ c ≠ '%' := by
  rw [Bool.and_eq_true, decide_eq_true_eq] at h
  rw [h.2]
  decide

theorem decode_encodeLabel (greedy : Bool) (t : String) :
    Percent.decode (encodeLabel greedy t).toList = t.toList := by
  rw [Segment.toList_encodeLabel]
  exact Percent.decode_encode (isAscii_of_kept greedy) t.toList

theorem slash_not_mem_encodeChar (keep : Char → Bool) {c : Char} (hc : c ≠ '/') :
    '/' ∉ Percent.encodeChar keep c := by
  intro h
  unfold Percent.encodeChar at h
  split at h
  · exact hc (List.mem_singleton.mp h).symm
  · obtain ⟨b, -, hb⟩ := List.mem_flatMap.mp h
    rcases Percent.mem_encodeByte hb with h | h
    · exact absurd h (by decide)
    · exact absurd h (by decide)

/-! ## Outer slashes -/

variable {keep : Char → Bool}

theorem encodeChar_slash (hkeep : keep '/' = true) : Percent.encodeChar keep '/' = ['/'] := by
  unfold Percent.encodeChar
  rw [hkeep, Bool.or_true, if_pos rfl]

/-- Slashes at the start stay slashes, and no other character becomes one. -/
theorem dropWhile_encode (hkeep : keep '/' = true) (s : List Char) :
    (Percent.encode keep s).dropWhile (· = '/') =
      Percent.encode keep (s.dropWhile (· = '/')) := by
  induction s with
  | nil => rfl
  | cons c s ih =>
    have hcons : Percent.encode keep (c :: s) =
        Percent.encodeChar keep c ++ Percent.encode keep s := List.flatMap_cons
    by_cases hc : c = '/'
    · rw [hcons, hc, encodeChar_slash hkeep, List.dropWhile_cons_of_pos (by simp), ← ih]
      exact List.dropWhile_cons_of_pos (by simp)
    · obtain ⟨d, r, hd⟩ := List.exists_cons_of_ne_nil (Percent.encodeChar_ne_nil keep c)
      have hslash := slash_not_mem_encodeChar keep hc
      rw [hd, List.mem_cons, not_or] at hslash
      rw [List.dropWhile_cons_of_neg (by simpa using hc), hcons, hd, List.cons_append]
      exact List.dropWhile_cons_of_neg (by simpa using Ne.symm hslash.1)

theorem trimEnd_encode (hkeep : keep '/' = true) (s : List Char) :
    Text.trimEnd (· = '/') (Percent.encode keep s) =
      Percent.encode keep (Text.trimEnd (· = '/') s) := by
  induction s using List.reverseRecOn with
  | nil => rfl
  | append_singleton s c ih =>
    have hconcat : Percent.encode keep (s ++ [c]) =
        Percent.encode keep s ++ Percent.encodeChar keep c := by
      rw [Percent.encode, List.flatMap_append, List.flatMap_singleton]
      rfl
    by_cases hc : c = '/'
    · rw [hconcat, hc, encodeChar_slash hkeep, Text.trimEnd_append _ (by decide), ih,
        Text.trimEnd_append s (by decide)]
    · obtain ⟨r, d, hd⟩ := (List.eq_nil_or_concat (Percent.encodeChar keep c)).resolve_left
        (Percent.encodeChar_ne_nil keep c)
      have hslash := slash_not_mem_encodeChar keep hc
      rw [hd, List.concat_eq_append, List.mem_append, List.mem_singleton, not_or] at hslash
      have hlast : (Percent.encode keep (s ++ [c])).getLast? = some d := by
        rw [hconcat, hd, List.concat_eq_append, ← List.append_assoc, List.getLast?_concat]
      rw [Text.trimEnd_of_getLast? hlast (by simpa using Ne.symm hslash.2),
        Text.trimEnd_of_getLast? List.getLast?_concat (by simpa using hc)]

theorem stripped_encode (hkeep : keep '/' = true) (atStart atEnd : Bool) (s : List Char) :
    Text.stripped '/' atStart atEnd (Percent.encode keep s) =
      Percent.encode keep (Text.stripped '/' atStart atEnd s) := by
  unfold Text.stripped
  cases atStart with
  | true =>
    cases atEnd with
    | true =>
      show Text.trimEnd (· = '/') ((Percent.encode keep s).dropWhile (· = '/')) =
        Percent.encode keep (Text.trimEnd (· = '/') (s.dropWhile (· = '/')))
      rw [dropWhile_encode hkeep, trimEnd_encode hkeep]
    | false => exact dropWhile_encode hkeep s
  | false =>
    cases atEnd with
    | true => exact trimEnd_encode hkeep s
    | false => rfl

end Path

/-! ## Parts of a request path -/

namespace Pattern

variable {p : Pattern} {labels : String → String}

theorem query_not_mem_fill {s : Segment} (hs : s.WellFormed) : '?' ∉ (s.fill labels).toList := by
  intro h
  unfold Segment.WellFormed at hs
  unfold Segment.fill at h
  cases hk : s.kind with
  | literal =>
    rw [hk] at hs h
    exact absurd (List.all_eq_true.mp hs.2 _ h) (by decide)
  | label =>
    rw [hk, Segment.toList_encodeLabel] at h
    rcases Percent.mem_encode h with h | h | h
    · exact absurd h (by decide)
    · exact absurd h (by decide)
    · exact absurd h (by decide)
  | greedy =>
    rw [hk, Segment.toList_encodeLabel] at h
    rcases Percent.mem_encode h with h | h | h
    · exact absurd h (by decide)
    · exact absurd h (by decide)
    · exact absurd h (by decide)

/-- The path has no query. -/
theorem cut_requestPath (hp : p.WellFormed) (labels : String → String) :
    (Text.cut '?' (p.requestPath labels).toList).1 = '/' :: Text.join '/' (p.filled labels) := by
  rw [toList_requestPath hp, Text.cut_of_not_mem]
  intro h
  rcases List.mem_cons.mp h with h | h
  · exact absurd h (by decide)
  · rcases Text.mem_join h with h | ⟨t, ht, h⟩
    · exact absurd h (by decide)
    · rcases List.mem_append.mp ht with ht | ht
      · obtain ⟨s, hs, rfl⟩ := List.mem_map.mp ht
        exact query_not_mem_fill (hp.segment s hs) h
      · split at ht
        · rw [List.mem_singleton.mp ht] at h
          exact absurd h List.not_mem_nil
        · exact absurd ht List.not_mem_nil

/-- What the reader sees of a request path: all its parts but the empty ones at both ends. -/
theorem parts_requestPath (hp : p.WellFormed) (labels : String → String) :
    Path.parts (p.requestPath labels) = Text.core (p.partsOf labels) := by
  have hparts : Path.parts (p.requestPath labels) =
      Text.core (Text.pieces '/' ('/' :: Text.join '/' (p.filled labels))) := by
    rw [← Text.parts_trim, ← cut_requestPath hp]
    rfl
  rw [hparts, Text.pieces_cons_sep]
  by_cases hnil : p.filled labels = []
  · have hempty : p.partsOf labels = [] := by
      unfold partsOf
      rw [hnil, List.flatMap_nil]
    rw [hnil, hempty]
    rfl
  · rw [Text.pieces_join '/' hnil]
    rfl

/-- Only the parts of a greedy label can be empty ones that the reader drops. -/
theorem core_partsOf (hp : p.WellFormed) {before mid after : List Segment}
    (hsplit : p.segments = before ++ (mid ++ after)) (hbefore : ∀ s ∈ before, s.kind ≠ .greedy)
    (hafter : ∀ s ∈ after, s.kind ≠ .greedy) (hne : ∀ n ∈ p.labels, labels n ≠ "") :
    Text.core (p.partsOf labels) = before.map (fun s => (s.fill labels).toList) ++
      (Text.inner before.isEmpty after.isEmpty
        (mid.flatMap fun s => Text.pieces '/' (s.fill labels).toList) ++
          after.map fun s => (s.fill labels).toList) := by
  have hform : ∀ ss : List Segment, (∀ s ∈ ss, s ∈ p.segments ∧ s.kind ≠ .greedy) →
      ∀ t ∈ ss.map (fun s => (s.fill labels).toList), t ≠ [] ∧ '/' ∉ t := by
    intro ss hss t ht
    obtain ⟨s, hs, rfl⟩ := List.mem_map.mp ht
    have hmem := (hss s hs).1
    exact Segment.fill_form (hp.segment s hmem) (hss s hs).2
      fun hl => hne _ (content_mem_labels hmem hl)
  have hfirst := hform before fun s hs => ⟨by rw [hsplit]; simp [hs], hbefore s hs⟩
  have hlast := hform after fun s hs => ⟨by rw [hsplit]; simp [hs], hafter s hs⟩
  have hslash : ∀ t ∈ (if p.trailingSlash then [[]] else [] : List (List Char)), t = [] := by
    intro t ht
    split at ht
    · exact List.mem_singleton.mp ht
    · exact absurd ht List.not_mem_nil
  have htail : ∀ t ∈ after.map (fun s => (s.fill labels).toList) ++
      (if p.trailingSlash then [[]] else []), '/' ∉ t := by
    intro t ht
    rcases List.mem_append.mp ht with ht | ht
    · exact (hlast t ht).2
    · rw [hslash t ht]
      exact List.not_mem_nil
  rw [partsOf_append hp hsplit hbefore hne, List.map_append, List.append_assoc,
    List.flatMap_append, Text.flatMap_pieces_of_not_mem htail, List.flatMap_map,
    ← List.append_assoc, ← List.append_assoc, Text.core_append_empty hslash, List.append_assoc,
    Text.core_around (fun t ht => (hfirst t ht).1) fun t ht => (hlast t ht).1, List.isEmpty_map,
    List.isEmpty_map]

end Pattern

/-! ## Matching -/

namespace Segment

/-- The names of the labels among segments. -/
def names (segments : List Segment) : List String := (segments.filter isLabel).map (·.content)

/-- The labels among segments with their texts. -/
def texts (labels : String → String) (segments : List Segment) : List (String × String) :=
  (names segments).map fun n => (n, labels n)

variable {labels : String → String}

theorem names_append (ss ts : List Segment) : names (ss ++ ts) = names ss ++ names ts := by
  unfold names
  rw [List.filter_append, List.map_append]

theorem texts_append (ss ts : List Segment) :
    texts labels (ss ++ ts) = texts labels ss ++ texts labels ts := by
  unfold texts
  rw [names_append, List.map_append]

theorem keys_texts (ss : List Segment) : Entries.keys (texts labels ss) = names ss := by
  unfold Entries.keys texts
  rw [List.map_map]
  exact List.map_id _

end Segment

namespace Path

open Segment (names texts)

variable {labels : String → String}

/-- Segments that are not greedy take the parts that were written for them. -/
theorem matchParts_append (path : String) {before : List Segment}
    (hplain : ∀ s ∈ before, s.kind ≠ .greedy) (hfill : ∀ s ∈ before, (s.fill labels).toList ≠ [])
    (rest : List Segment) (ps : List (List Char)) (found : List (String × String))
    (hnew : (Entries.keys found ++ names before).Nodup) :
    matchParts path (before ++ rest) (before.map (fun s => (s.fill labels).toList) ++ ps) found =
      matchParts path rest ps (found ++ texts labels before) := by
  induction before generalizing found with
  | nil =>
    show matchParts path rest ps found = matchParts path rest ps (found ++ [])
    rw [List.append_nil]
  | cons s before ih =>
    have hplain' : ∀ t ∈ before, t.kind ≠ .greedy := fun t ht =>
      hplain t (List.mem_cons_of_mem s ht)
    have hfill' : ∀ t ∈ before, (t.fill labels).toList ≠ [] := fun t ht =>
      hfill t (List.mem_cons_of_mem s ht)
    have hs := hfill s List.mem_cons_self
    obtain ⟨kind, name⟩ := s
    cases kind with
    | literal =>
      show matchParts path (⟨.literal, name⟩ :: (before ++ rest))
        (name.toList :: (before.map (fun s => (s.fill labels).toList) ++ ps)) found = _
      rw [matchParts, if_pos String.ofList_toList]
      exact ih hplain' hfill' found hnew
    | label =>
      have hnames : names (⟨.label, name⟩ :: before) = name :: names before := rfl
      have hkeys : Entries.keys (found ++ [(name, labels name)]) =
          Entries.keys found ++ [name] := by
        unfold Entries.keys
        rw [List.map_append]
        rfl
      have hname : name ∉ Entries.keys found := by
        intro h
        rw [hnames] at hnew
        exact (List.nodup_append.mp hnew).2.2 name h name List.mem_cons_self rfl
      have hpart : ¬ (encodeLabel false (labels name)).toList.isEmpty = true := fun he =>
        hs (List.isEmpty_iff.mp he)
      show matchParts path (⟨.label, name⟩ :: (before ++ rest))
        ((encodeLabel false (labels name)).toList ::
          (before.map (fun s => (s.fill labels).toList) ++ ps)) found = _
      rw [matchParts, if_neg hpart, decode_encodeLabel, String.ofList_toList,
        Entries.put_of_not_mem hname,
        ih hplain' hfill' _ (by rw [hkeys, List.append_assoc]; exact hnew), List.append_assoc]
      rfl
    | greedy => exact absurd rfl (hplain _ List.mem_cons_self)

theorem matchParts_plain (path : String) {segments : List Segment}
    (hplain : ∀ s ∈ segments, s.kind ≠ .greedy)
    (hfill : ∀ s ∈ segments, (s.fill labels).toList ≠ []) (found : List (String × String))
    (hnew : (Entries.keys found ++ names segments).Nodup) :
    matchParts path segments (segments.map fun s => (s.fill labels).toList) found =
      .ok (found ++ texts labels segments) := by
  have h := matchParts_append path hplain hfill [] [] found hnew
  rw [List.append_nil, List.append_nil] at h
  rw [h]
  rfl

/-- A greedy label takes what the segments behind it leave over. -/
theorem matchParts_greedy (path name : String) {segments : List Segment}
    {block ps : List (List Char)} (hlen : ps.length = segments.length)
    (found : List (String × String)) :
    matchParts path (⟨.greedy, name⟩ :: segments) (block ++ ps) found =
      if block = [] then .error (.missingGreedy path name)
      else matchParts path segments ps
        (Entries.put name (String.ofList (Percent.decode (Text.join '/' block))) found) := by
  have hcount : (block ++ ps).length - segments.length = block.length := by
    rw [List.length_append]
    omega
  rw [matchParts]
  dsimp only
  rw [hcount, List.drop_left, List.take_left, List.length_append]
  by_cases hblock : block = []
  · rw [if_pos hblock, if_pos (by rw [hblock, List.length_nil]; omega)]
  · have hpos : 0 < block.length := List.length_pos_iff.mpr hblock
    rw [if_neg hblock, if_neg (by omega)]

end Path

/-! ## Patterns with a greedy label -/

namespace Pattern

open Segment (names texts)

variable {p : Pattern} {labels : String → String}

theorem nodup_names (hp : p.WellFormed) : (names p.segments).Nodup := hp.labels

theorem fill_ne_nil (hp : p.WellFormed) (hne : ∀ n ∈ p.labels, labels n ≠ "") {s : Segment}
    (hs : s ∈ p.segments) (hplain : s.kind ≠ .greedy) : (s.fill labels).toList ≠ [] :=
  (Segment.fill_form (hp.segment s hs) hplain fun hl => hne _ (content_mem_labels hs hl)).1

/-- The segments around the greedy label of a pattern. -/
structure GreedyAt (p : Pattern) (before : List Segment) (name : String) (after : List Segment) :
    Prop where
  split : p.segments = before ++ (⟨.greedy, name⟩ :: after)
  before_plain : ∀ s ∈ before, s.kind ≠ .greedy
  after_plain : ∀ s ∈ after, s.kind ≠ .greedy

theorem exists_greedyAt (hp : p.WellFormed) {g : Segment} (hg : g ∈ p.segments)
    (hkind : g.kind = .greedy) : ∃ before after, GreedyAt p before g.content after := by
  obtain ⟨before, after, hsplit⟩ := List.append_of_mem hg
  have hlen := hp.greedy
  rw [hsplit, List.filter_append, List.filter_cons_of_pos (by simpa using hkind),
    List.length_append, List.length_cons] at hlen
  have hplain : ∀ ss : List Segment, (ss.filter fun s => s.kind = .greedy).length = 0 →
      ∀ s ∈ ss, s.kind ≠ .greedy := by
    intro ss hss s hs hk
    have hin : s ∈ ss.filter fun s => s.kind = .greedy := List.mem_filter.mpr ⟨hs, by simpa⟩
    rw [List.length_eq_zero_iff.mp hss] at hin
    exact absurd hin List.not_mem_nil
  refine ⟨before, after, ?_, hplain before (by omega), hplain after (by omega)⟩
  rw [hsplit, ← hkind]

/-- The text of a label as it is read back: a greedy label that starts the pattern has no slashes at
its start, and one that ends it has none at its end. -/
def arriving (p : Pattern) (labels : String → String) (name : String) : String :=
  String.ofList (Text.stripped '/' (p.segments.head? = some ⟨.greedy, name⟩)
    (p.segments.getLast? = some ⟨.greedy, name⟩) (labels name).toList)

theorem arriving_of_not_greedy {name : String} (h : (⟨.greedy, name⟩ : Segment) ∉ p.segments) :
    p.arriving labels name = labels name := by
  have hfirst : ¬ p.segments.head? = some ⟨.greedy, name⟩ := fun hh => h (List.mem_of_head? hh)
  have hlast : ¬ p.segments.getLast? = some ⟨.greedy, name⟩ := fun hl =>
    h (List.mem_of_getLast? hl)
  unfold arriving
  rw [decide_eq_false hfirst, decide_eq_false hlast]
  exact String.ofList_toList

namespace GreedyAt

variable {before after : List Segment} {name : String}

theorem mem (h : GreedyAt p before name after) : ⟨.greedy, name⟩ ∈ p.segments := by
  rw [h.split]
  exact List.mem_append_right before List.mem_cons_self

theorem mem_around (h : GreedyAt p before name after) {s : Segment}
    (hs : s ∈ before ∨ s ∈ after) : s ∈ p.segments ∧ s.kind ≠ .greedy := by
  rw [h.split]
  rcases hs with hs | hs
  · exact ⟨List.mem_append_left _ hs, h.before_plain s hs⟩
  · exact ⟨List.mem_append_right _ (List.mem_cons_of_mem _ hs), h.after_plain s hs⟩

theorem eq_of_mem (h : GreedyAt p before name after) {n : String}
    (hn : ⟨.greedy, n⟩ ∈ p.segments) : n = name := by
  rw [h.split, List.mem_append, List.mem_cons] at hn
  rcases hn with hn | hn | hn
  · exact absurd rfl (h.before_plain _ hn)
  · exact (Segment.mk.inj hn).2
  · exact absurd rfl (h.after_plain _ hn)

theorem head?_eq_iff (h : GreedyAt p before name after) :
    p.segments.head? = some ⟨.greedy, name⟩ ↔ before = [] := by
  rw [h.split]
  cases hb : before with
  | nil => exact iff_of_true rfl rfl
  | cons s ss =>
    refine iff_of_false (fun he => ?_) (List.cons_ne_nil s ss)
    exact h.before_plain s (hb ▸ List.mem_cons_self) (by rw [Option.some.inj he])

theorem getLast?_eq_iff (h : GreedyAt p before name after) :
    p.segments.getLast? = some ⟨.greedy, name⟩ ↔ after = [] := by
  rw [h.split]
  rcases List.eq_nil_or_concat after with ha | ⟨ss, s, ha⟩
  · rw [ha, List.getLast?_concat]
    exact iff_of_true rfl rfl
  · rw [List.concat_eq_append] at ha
    rw [ha, ← List.cons_append, ← List.append_assoc, List.getLast?_concat]
    refine iff_of_false (fun he => ?_) (by simp)
    exact h.after_plain s (by rw [ha]; simp) (by rw [Option.some.inj he])

/-- Where the greedy label stands decides on the slashes that it loses. -/
theorem arriving_eq (h : GreedyAt p before name after) (labels : String → String) :
    p.arriving labels name =
      String.ofList (Text.stripped '/' before.isEmpty after.isEmpty (labels name).toList) := by
  have hfirst : decide (p.segments.head? = some ⟨.greedy, name⟩) = before.isEmpty := by
    rw [Bool.eq_iff_iff, decide_eq_true_eq, List.isEmpty_iff]
    exact h.head?_eq_iff
  have hlast : decide (p.segments.getLast? = some ⟨.greedy, name⟩) = after.isEmpty := by
    rw [Bool.eq_iff_iff, decide_eq_true_eq, List.isEmpty_iff]
    exact h.getLast?_eq_iff
  unfold arriving
  rw [hfirst, hlast]

/-- The labels around the greedy one are read back as they were. -/
theorem fill_arriving (h : GreedyAt p before name after) (hp : p.WellFormed) {s : Segment}
    (hs : s ∈ before ∨ s ∈ after) : s.fill (p.arriving labels) = s.fill labels := by
  apply Segment.fill_congr
  intro hlabel
  apply arriving_of_not_greedy
  intro hmem
  have hin : ∀ ss : List Segment, s ∈ ss → name ∈ names ss := fun ss hss =>
    List.mem_map.mpr ⟨s, List.mem_filter.mpr ⟨hss, hlabel⟩, h.eq_of_mem hmem⟩
  have hcons : names (⟨.greedy, name⟩ :: after) = name :: names after := rfl
  have hnodup := nodup_names hp
  rw [h.split, Segment.names_append, hcons, List.nodup_append] at hnodup
  rcases hs with hs | hs
  · exact hnodup.2.2 name (hin before hs) name List.mem_cons_self rfl
  · exact (List.nodup_cons.mp hnodup.2.1).1 (hin after hs)

theorem map_fill_arriving (h : GreedyAt p before name after) (hp : p.WellFormed)
    {ss : List Segment} (hss : ∀ s ∈ ss, s ∈ before ∨ s ∈ after) :
    ss.map (fun s => (s.fill labels).toList) =
      ss.map fun s => (s.fill (p.arriving labels)).toList :=
  List.map_congr_left fun s hs => by rw [h.fill_arriving hp (hss s hs)]

/-- The parts of the greedy label are those of its text as it is read back. -/
theorem inner_pieces (h : GreedyAt p before name after) (hname : labels name ≠ "") :
    Text.inner before.isEmpty after.isEmpty
      (Text.pieces '/' (Path.encodeLabel true (labels name)).toList) =
        Text.parts '/' (Path.encodeLabel true (p.arriving labels name)).toList := by
  have hne : Percent.encode (fun c => true && decide (c = '/')) (labels name).toList ≠ [] :=
    Percent.encode_ne_nil fun he => hname (String.toList_eq_nil_iff.mp he)
  rw [Segment.toList_encodeLabel, ← Text.parts_stripped _ _ _ hne, Path.stripped_encode rfl,
    Segment.toList_encodeLabel, h.arriving_eq, String.toList_ofList]

/-- The parts that the reader sees are those of the path with the texts that it reads back. -/
theorem parts_requestPath_eq (h : GreedyAt p before name after) (hp : p.WellFormed)
    (hne : ∀ n ∈ p.labels, labels n ≠ "") :
    Path.parts (p.requestPath labels) =
      before.map (fun s => (s.fill (p.arriving labels)).toList) ++
        (Text.parts '/' (Path.encodeLabel true (p.arriving labels name)).toList ++
          after.map fun s => (s.fill (p.arriving labels)).toList) := by
  have hname : labels name ≠ "" := hne name (content_mem_labels h.mem rfl)
  have hsplit : p.segments = before ++ ([⟨.greedy, name⟩] ++ after) := h.split
  have hfill : Segment.fill labels ⟨.greedy, name⟩ = Path.encodeLabel true (labels name) := rfl
  rw [parts_requestPath hp, core_partsOf hp hsplit h.before_plain h.after_plain hne,
    List.flatMap_singleton, hfill, h.inner_pieces hname,
    h.map_fill_arriving hp fun s hs => Or.inl hs, h.map_fill_arriving hp fun s hs => Or.inr hs]

/-- What is read back from the path of a request: all labels, the greedy one without the slashes
at the ends of the path. If nothing is left of it, the path does not match. -/
theorem labelsOf_requestPath (h : GreedyAt p before name after) (hp : p.WellFormed)
    (hne : ∀ n ∈ p.labels, labels n ≠ "") :
    Path.labelsOf p.segments (p.requestPath labels) =
      if p.arriving labels name = "" then .error (.missingGreedy (p.requestPath labels) name)
      else .ok (texts (p.arriving labels) p.segments) := by
  have hfill : ∀ s, s ∈ before ∨ s ∈ after → (s.fill (p.arriving labels)).toList ≠ [] := by
    intro s hs
    have hmem := h.mem_around hs
    rw [h.fill_arriving hp hs]
    exact fill_ne_nil hp hne hmem.1 hmem.2
  have hcons : names (⟨.greedy, name⟩ :: after) = name :: names after := rfl
  have hnodup := nodup_names hp
  rw [h.split, Segment.names_append, hcons] at hnodup
  have hkeys : Entries.keys (texts (p.arriving labels) before) = names before :=
    Segment.keys_texts before
  have hnil : Text.parts '/' (Path.encodeLabel true (p.arriving labels name)).toList = [] ↔
      p.arriving labels name = "" := by
    rw [Text.parts_eq_nil]
    constructor
    · intro he
      by_contra hn
      exact Segment.encodeLabel_ne_nil true hn he
    · intro he
      rw [he]
      rfl
  have hmatch : Path.labelsOf p.segments (p.requestPath labels) =
      Path.matchParts (p.requestPath labels) (⟨.greedy, name⟩ :: after)
        (Text.parts '/' (Path.encodeLabel true (p.arriving labels name)).toList ++
          after.map fun s => (s.fill (p.arriving labels)).toList)
        (texts (p.arriving labels) before) := by
    unfold Path.labelsOf
    rw [h.parts_requestPath_eq hp hne, h.split]
    exact Path.matchParts_append _ h.before_plain (fun s hs => hfill s (Or.inl hs)) _ _ []
      (List.nodup_append.mp hnodup).1
  rw [hmatch, Path.matchParts_greedy _ _ (by rw [List.length_map])]
  by_cases harr : p.arriving labels name = ""
  · rw [if_pos (hnil.mpr harr), if_pos harr]
  · have hnew : name ∉ Entries.keys (texts (p.arriving labels) before) := by
      rw [hkeys]
      intro hin
      exact (List.nodup_append.mp hnodup).2.2 name hin name List.mem_cons_self rfl
    have hrest : (Entries.keys (texts (p.arriving labels) before ++
        [(name, p.arriving labels name)]) ++ names after).Nodup := by
      unfold Entries.keys at hkeys ⊢
      rw [List.map_append, hkeys, List.append_assoc]
      exact hnodup
    rw [if_neg fun he => harr (hnil.mp he), if_neg harr, Text.join_parts, Path.decode_encodeLabel,
      String.ofList_toList, Entries.put_of_not_mem hnew,
      Path.matchParts_plain _ h.after_plain (fun s hs => hfill s (Or.inr hs)) _ hrest, h.split,
      Segment.texts_append, List.append_assoc]
    rfl

/-- The greedy label loses nothing exactly if no slash stands at an end of the path. -/
theorem arriving_eq_self_iff (h : GreedyAt p before name after) :
    p.arriving labels name = labels name ↔
      (p.segments.head? = some ⟨.greedy, name⟩ → (labels name).toList.head? ≠ some '/') ∧
      (p.segments.getLast? = some ⟨.greedy, name⟩ → (labels name).toList.getLast? ≠ some '/') := by
  rw [h.head?_eq_iff, h.getLast?_eq_iff, ← List.isEmpty_iff, ← List.isEmpty_iff,
    ← Text.stripped_eq_self_iff, h.arriving_eq, ← String.toList_inj, String.toList_ofList]

theorem texts_arriving_iff (h : GreedyAt p before name after) :
    texts (p.arriving labels) p.segments = texts labels p.segments ↔
      p.arriving labels name = labels name := by
  have hname : name ∈ names p.segments := content_mem_labels h.mem rfl
  unfold texts
  rw [List.map_inj_left]
  constructor
  · intro hall
    exact (Prod.mk.inj (hall name hname)).2
  · intro heq n _
    by_cases hn : (⟨.greedy, n⟩ : Segment) ∈ p.segments
    · rw [h.eq_of_mem hn, heq]
    · rw [arriving_of_not_greedy hn]

end GreedyAt

/-! ## Round trips -/

/-- Labels of a pattern without a greedy one are read back from the path as they were written. -/
theorem labelsOf_requestPath_of_plain {text : String} (h : parse text = .ok p)
    (hplain : ∀ s ∈ p.segments, s.kind ≠ .greedy) (hne : ∀ n ∈ p.labels, labels n ≠ "") :
    Path.labelsOf p.segments (p.requestPath labels) =
      .ok (p.labels.map fun n => (n, labels n)) := by
  have hp := wellFormed_of_parse h
  have hsplit : p.segments = p.segments ++ ([] ++ []) := (List.append_nil _).symm
  have hparts : Path.parts (p.requestPath labels) =
      p.segments.map fun s => (s.fill labels).toList := by
    rw [parts_requestPath hp, core_partsOf hp hsplit hplain (by simp) hne]
    cases p.segments.isEmpty with
    | true => exact List.append_nil _
    | false => exact List.append_nil _
  unfold Path.labelsOf
  rw [hparts, Path.matchParts_plain _ hplain (fun s hs => fill_ne_nil hp hne hs (hplain s hs)) []
    (nodup_names hp)]
  rfl

/-- Reserved characters, signs of encoding and letters outside ASCII in labels come back. -/
theorem labelsOf_reserved_labels :
    ∃ p, parse "/items/\x7bId\x7d/\x7bName\x7d/" = .ok p ∧ (∀ s ∈ p.segments, s.kind ≠ .greedy) ∧
      (∀ n ∈ p.labels, (if n = "Id" then "/a//b/" else "%2F?é+") ≠ "") ∧
      Path.labelsOf p.segments (p.requestPath fun n => if n = "Id" then "/a//b/" else "%2F?é+") =
        .ok [("Id", "/a//b/"), ("Name", "%2F?é+")] := by
  have hparse : parse "/items/\x7bId\x7d/\x7bName\x7d/" =
      .ok ⟨[⟨.literal, "items"⟩, ⟨.label, "Id"⟩, ⟨.label, "Name"⟩], true, []⟩ := rfl
  have hplain : ∀ s ∈ [(⟨.literal, "items"⟩ : Segment), ⟨.label, "Id"⟩, ⟨.label, "Name"⟩],
      s.kind ≠ .greedy := by decide
  have hne : ∀ n ∈ labels ⟨[⟨.literal, "items"⟩, ⟨.label, "Id"⟩, ⟨.label, "Name"⟩], true, []⟩,
      (if n = "Id" then "/a//b/" else "%2F?é+") ≠ "" := by decide
  exact ⟨_, hparse, hplain, hne, labelsOf_requestPath_of_plain hparse hplain hne⟩

/-- Labels of a pattern with a greedy one are read back as they were written if and only if the
greedy label puts no slash at an end of the path. -/
theorem labelsOf_requestPath_iff {text : String} (h : parse text = .ok p) {g : Segment}
    (hg : g ∈ p.segments) (hkind : g.kind = .greedy) (hne : ∀ n ∈ p.labels, labels n ≠ "") :
    Path.labelsOf p.segments (p.requestPath labels) = .ok (p.labels.map fun n => (n, labels n)) ↔
      (p.segments.head? = some g → (labels g.content).toList.head? ≠ some '/') ∧
      (p.segments.getLast? = some g → (labels g.content).toList.getLast? ≠ some '/') := by
  have hp := wellFormed_of_parse h
  obtain ⟨before, after, hat⟩ := exists_greedyAt hp hg hkind
  obtain ⟨kind, name⟩ := g
  subst hkind
  rw [← hat.arriving_eq_self_iff, hat.labelsOf_requestPath hp hne]
  by_cases harr : p.arriving labels name = ""
  · rw [if_pos harr, harr]
    refine iff_of_false nofun fun he => ?_
    exact hne name (content_mem_labels hat.mem rfl) he.symm
  · rw [if_neg harr, Except.ok.injEq]
    exact hat.texts_arriving_iff

/-- A greedy label between literals keeps its slashes. -/
theorem labelsOf_slashes_between_literals :
    ∃ p, parse "/files/\x7bPath+\x7d/meta" = .ok p ∧ ⟨.greedy, "Path"⟩ ∈ p.segments ∧
      Path.labelsOf p.segments (p.requestPath fun _ => "/a//b/") = .ok [("Path", "/a//b/")] := by
  have hparse : parse "/files/\x7bPath+\x7d/meta" =
      .ok ⟨[⟨.literal, "files"⟩, ⟨.greedy, "Path"⟩, ⟨.literal, "meta"⟩], false, []⟩ := rfl
  have hmem : (⟨.greedy, "Path"⟩ : Segment) ∈
      [(⟨.literal, "files"⟩ : Segment), ⟨.greedy, "Path"⟩, ⟨.literal, "meta"⟩] := by decide
  refine ⟨_, hparse, hmem, (labelsOf_requestPath_iff hparse hmem rfl fun _ _ => by decide).mpr ?_⟩
  exact ⟨fun h => absurd h (by decide), fun h => absurd h (by decide)⟩

/-- Slashes at the start and at the end of a path are lost for the greedy label that they belong
to. -/
theorem labelsOf_outer_slashes_lost :
    (∃ p, parse "/\x7bKey+\x7d" = .ok p ∧
      Path.labelsOf p.segments (p.requestPath fun _ => "/a") ≠ .ok [("Key", "/a")]) ∧
    ∃ p, parse "/files/\x7bKey+\x7d" = .ok p ∧
      Path.labelsOf p.segments (p.requestPath fun _ => "a/") ≠ .ok [("Key", "a/")] := by
  have hnil : ∀ s ∈ ([] : List Segment), s.kind ≠ .greedy := fun _ h => absurd h List.not_mem_nil
  constructor
  · have hparse : parse "/\x7bKey+\x7d" = .ok ⟨[⟨.greedy, "Key"⟩], false, []⟩ := rfl
    have hat : GreedyAt ⟨[⟨.greedy, "Key"⟩], false, []⟩ [] "Key" [] := ⟨rfl, hnil, hnil⟩
    refine ⟨_, hparse, ?_⟩
    rw [hat.labelsOf_requestPath (wellFormed_of_parse hparse) fun _ _ => by decide]
    decide
  · have hparse : parse "/files/\x7bKey+\x7d" =
        .ok ⟨[⟨.literal, "files"⟩, ⟨.greedy, "Key"⟩], false, []⟩ := rfl
    have hat : GreedyAt ⟨[⟨.literal, "files"⟩, ⟨.greedy, "Key"⟩], false, []⟩
        [⟨.literal, "files"⟩] "Key" [] := ⟨rfl, by decide, hnil⟩
    refine ⟨_, hparse, ?_⟩
    rw [hat.labelsOf_requestPath (wellFormed_of_parse hparse) fun _ _ => by decide]
    decide

end Pattern

end Wireform
