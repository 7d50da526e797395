import Wireform.Proofs.Uri.PatternForm

/-
  Wireform URI patterns: reading and writing against the grammar. `Spells p s` is the grammar, a
  rule for each of its productions, without any reading. A text is read as the pattern that it
  spells, if no label comes twice and at most one is greedy, and no other text is read
  (`readChars_eq_some`). Writing a pattern gives back the text it was read from, up to the equals
  signs that no value follows (`chars_of_spells`).
-/

namespace Wireform.Pattern

/-! ## The grammar -/

/-- One or more items, with the character `c` between each two. -/
inductive Separated {α : Type} (c : Char) (spells : α → List Char → Prop) :
    List α → List Char → Prop
  | one {x : α} {s : List Char} (h : spells x s) : Separated c spells [x] s
  | more {x : α} {xs : List α} {s r : List Char} (h : spells x s) (hr : Separated c spells xs r) :
      Separated c spells (x :: xs) (s ++ c :: r)

/-- A literal stands for itself, a label in braces, a greedy one with a plus sign in them. -/
inductive SpellsSegment : Segment → List Char → Prop
  | literal {s : List Char} (hne : s ≠ []) (hs : ∀ c ∈ s, isLiteralChar c = true) :
      SpellsSegment ⟨.literal, String.ofList s⟩ s
  | label {n : List Char} (hn : isName n = true) :
      SpellsSegment ⟨.label, String.ofList n⟩ ('\x7b' :: (n ++ ['\x7d']))
  | greedy {n : List Char} (hn : isName n = true) :
      SpellsSegment ⟨.greedy, String.ofList n⟩ ('\x7b' :: (n ++ ['+', '\x7d']))

/-- No segments, or some of them between slashes, with or without a slash behind them. -/
inductive SpellsPath : List Segment → Bool → List Char → Prop
  | root : SpellsPath [] false []
  | plain {ts : List Segment} {s : List Char} (h : Separated '/' SpellsSegment ts s) :
      SpellsPath ts false s
  | closed {ts : List Segment} {s : List Char} (h : Separated '/' SpellsSegment ts s) :
      SpellsPath ts true (s ++ ['/'])

/-- A key alone, or with an equals sign and a value, which may be empty. -/
inductive SpellsPair : String × String → List Char → Prop
  | bare {k : List Char} (hne : k ≠ []) (hk : ∀ c ∈ k, isKeyChar c = true) :
      SpellsPair (String.ofList k, "") k
  | valued {k v : List Char} (hne : k ≠ []) (hk : ∀ c ∈ k, isKeyChar c = true) (hv : '&' ∉ v) :
      SpellsPair (String.ofList k, String.ofList v) (k ++ '=' :: v)

/-- Nothing, or a question mark with pairs between ampersands behind it. -/
inductive SpellsQuery : List (String × String) → List Char → Prop
  | absent : SpellsQuery [] []
  | given {qs : List (String × String)} {s : List Char} (h : Separated '&' SpellsPair qs s) :
      SpellsQuery qs ('?' :: s)

/-- A slash, a path and a query. -/
inductive Spells : Pattern → List Char → Prop
  | pattern {ts : List Segment} {trailing : Bool} {qs : List (String × String)}
      {path query : List Char} (hpath : SpellsPath ts trailing path)
      (hquery : SpellsQuery qs query) : Spells ⟨ts, trailing, qs⟩ ('/' :: (path ++ query))

/-! ## Items between separators -/

section

variable {α : Type} {c : Char} {spells : α → List Char → Prop} {xs : List α} {s : List Char}

/-- Items without the separator in them are spelled by the pieces between the separators. -/
theorem separated_iff (hc : ∀ x s, spells x s → c ∉ s) :
    Separated c spells xs s ↔ List.Forall₂ (fun p x => spells x p) (Text.pieces c s) xs := by
  constructor
  · intro h
    induction h with
    | @one x s h =>
      rw [Text.pieces_of_not_mem (hc x s h)]
      exact List.Forall₂.cons h List.Forall₂.nil
    | @more x xs s r h _ ih =>
      rw [Text.pieces_append_sep, Text.pieces_of_not_mem (hc x s h)]
      exact List.Forall₂.cons h ih
  · intro h
    have hs := Text.join_pieces c s
    have hne := Text.pieces_ne_nil c s
    generalize Text.pieces c s = ps at h hs hne
    rw [← hs]
    clear hs
    induction h with
    | nil => exact absurd rfl hne
    | @cons p x ps xs hp hps ih =>
      cases hps with
      | nil => exact Separated.one hp
      | cons hq hqs =>
        rw [Text.join_cons c p (List.cons_ne_nil _ _)]
        exact Separated.more hp (ih (List.cons_ne_nil _ _))

theorem Separated.ne_nil (h : Separated c spells xs s) : xs ≠ [] := by
  cases h with
  | one _ => exact List.cons_ne_nil _ _
  | more _ _ => exact List.cons_ne_nil _ _

/-- Every character belongs to an item, or is a separator. -/
theorem Separated.forall_mem {good : Char → Prop} (h : Separated c spells xs s)
    (hitem : ∀ x s, spells x s → ∀ d ∈ s, good d) (hc : good c) : ∀ d ∈ s, good d := by
  induction h with
  | one h => exact hitem _ _ h
  | @more x xs s r h _ ih =>
    intro d hd
    rw [List.mem_append, List.mem_cons] at hd
    rcases hd with hd | rfl | hd
    · exact hitem x s h d hd
    · exact hc
    · exact ih d hd

end

/-! ## Segments -/

theorem isNameRest_of_mem {n : List Char} (h : isName n = true) {c : Char} (hc : c ∈ n) :
    isNameRest c = true := by
  cases n with
  | nil => cases h
  | cons x n =>
    rw [isName, Bool.and_eq_true, List.all_eq_true] at h
    rcases List.mem_cons.mp hc with rfl | hc
    · unfold isNameRest
      rw [h.1, Bool.true_or]
    · exact h.2 c hc

/-- Names hold none of the signs of the grammar. -/
theorem not_mem_name {n : List Char} (h : isName n = true) {c : Char}
    (hc : isNameRest c = false) : c ∉ n := by
  intro hmem
  rw [isNameRest_of_mem h hmem] at hc
  cases hc

theorem readLabel_eq_some {s : List Char} {t : Segment} : readLabel s = some t ↔
    (isName s = true ∧ t = ⟨.label, String.ofList s⟩) ∨
      ∃ n, isName n = true ∧ s = n ++ ['+'] ∧ t = ⟨.greedy, String.ofList n⟩ := by
  have hplus : ∀ {n : List Char}, isName (n ++ ['+']) = true → False := fun h =>
    not_mem_name h (show isNameRest '+' = false from rfl)
      (List.mem_append_right _ List.mem_cons_self)
  unfold readLabel
  constructor
  · intro h
    split at h
    · next hs =>
      cases h
      exact Or.inl ⟨hs, rfl⟩
    · split at h
      · next hs =>
        cases h
        rw [Bool.and_eq_true, decide_eq_true_eq] at hs
        obtain ⟨n, rfl⟩ := List.getLast?_eq_some_iff.mp hs.1
        rw [List.dropLast_concat] at hs
        exact Or.inr ⟨n, hs.2, rfl, by rw [List.dropLast_concat]⟩
      · cases h
  · rintro (⟨hs, rfl⟩ | ⟨n, hn, rfl, rfl⟩)
    · rw [if_pos hs]
    · rw [if_neg hplus, List.dropLast_concat, List.getLast?_concat, hn]
      rfl

/-- A segment is read from a text exactly if the text spells it. -/
theorem readSegment_eq_some {s : List Char} {t : Segment} :
    readSegment s = some t ↔ SpellsSegment t s := by
  constructor
  · intro h
    unfold readSegment at h
    split at h
    · split at h
      · next hlast =>
        obtain ⟨r, rfl⟩ := List.getLast?_eq_some_iff.mp hlast
        rw [List.dropLast_concat, readLabel_eq_some] at h
        rcases h with ⟨hn, rfl⟩ | ⟨n, hn, rfl, rfl⟩
        · exact SpellsSegment.label hn
        · rw [List.append_assoc]
          exact SpellsSegment.greedy hn
      · cases h
    · split at h
      · next hchars =>
        cases h
        rw [Bool.and_eq_true, List.all_eq_true, Bool.not_eq_true', List.isEmpty_eq_false_iff]
          at hchars
        exact SpellsSegment.literal hchars.1 hchars.2
      · cases h
  · intro h
    cases h with
    | literal hne hs =>
      obtain ⟨c, r, rfl⟩ := List.exists_cons_of_ne_nil hne
      have hc : c ≠ '\x7b' := by
        rintro rfl
        exact absurd (hs _ List.mem_cons_self) (by decide)
      unfold readSegment
      split
      · next heq =>
        exact absurd (List.cons.inj heq).1 hc
      · rw [List.all_eq_true.mpr hs]
        rfl
    | label hn =>
      rw [readSegment, List.getLast?_concat, if_pos rfl, List.dropLast_concat]
      exact readLabel_eq_some.mpr (Or.inl ⟨hn, rfl⟩)
    | @greedy n hn =>
      have hshape : n ++ ['+', '\x7d'] = (n ++ ['+']) ++ ['\x7d'] := by simp
      rw [hshape, readSegment, List.getLast?_concat, if_pos rfl, List.dropLast_concat]
      exact readLabel_eq_some.mpr (Or.inr ⟨n, hn, rfl, rfl⟩)

/-- A character that names do not hold, nor literals, nor braces. -/
theorem not_mem_segment {d : Char} (hliteral : isLiteralChar d = false)
    (hname : isNameRest d = false) (hbraces : d ∉ ['\x7b', '+', '\x7d']) {t : Segment}
    {s : List Char} (h : SpellsSegment t s) : d ∉ s := by
  simp only [List.mem_cons, List.not_mem_nil, or_false, not_or] at hbraces
  obtain ⟨hopen, hplus, hclose⟩ := hbraces
  intro hd
  cases h with
  | literal hne hs =>
    rw [hs d hd] at hliteral
    cases hliteral
  | label hn =>
    simp only [List.mem_cons, List.mem_append, List.not_mem_nil, or_false, hopen, hclose,
      false_or] at hd
    exact not_mem_name hn hname hd
  | greedy hn =>
    simp only [List.mem_cons, List.mem_append, List.not_mem_nil, or_false, hopen, hplus, hclose,
      false_or] at hd
    exact not_mem_name hn hname hd

theorem slash_not_mem_segment {t : Segment} {s : List Char} (h : SpellsSegment t s) : '/' ∉ s :=
  not_mem_segment rfl rfl (by decide) h

theorem SpellsSegment.ne_nil {t : Segment} {s : List Char} (h : SpellsSegment t s) : s ≠ [] := by
  cases h with
  | literal hne _ => exact hne
  | label _ => exact List.cons_ne_nil _ _
  | greedy _ => exact List.cons_ne_nil _ _

/-! ## Paths -/

/-- Segments are read piece by piece exactly if the text spells them. -/
theorem mapM_readSegment {s : List Char} {ts : List Segment} :
    (Text.pieces '/' s).mapM readSegment = some ts ↔ Separated '/' SpellsSegment ts s := by
  rw [separated_iff fun t s h => slash_not_mem_segment h, Outcome.mapM_eq_some]
  simp only [readSegment_eq_some]

/-- A path that ends in a slash has an empty last piece, and no other path has one. -/
theorem pieces_concat_slash (s : List Char) :
    Text.pieces '/' (s ++ ['/']) = Text.pieces '/' s ++ [[]] :=
  Text.pieces_append_sep '/' s []

theorem endsInSlash_iff {s : List Char} :
    ((Text.pieces '/' s).getLast? = some [] && 1 < (Text.pieces '/' s).length) = true ↔
      ∃ r, s = r ++ ['/'] := by
  rw [Bool.and_eq_true, decide_eq_true_eq, decide_eq_true_eq]
  constructor
  · rintro ⟨hlast, hlength⟩
    obtain ⟨ps, hps⟩ := List.getLast?_eq_some_iff.mp hlast
    have hne : ps ≠ [] := by
      rintro rfl
      rw [hps] at hlength
      exact absurd hlength (by decide)
    refine ⟨Text.join '/' ps, ?_⟩
    rw [← Text.join_pieces '/' s, hps, Text.join_append '/' hne (List.cons_ne_nil _ _)]
    rfl
  · rintro ⟨r, rfl⟩
    have hpos := List.length_pos_of_ne_nil (Text.pieces_ne_nil '/' r)
    rw [pieces_concat_slash, List.getLast?_concat, List.length_append, List.length_singleton]
    exact ⟨rfl, by omega⟩

/-- No spelling of segments ends in a slash. -/
theorem not_separated_concat_slash {ts : List Segment} {s : List Char} :
    ¬ Separated '/' SpellsSegment ts (s ++ ['/']) := by
  intro h
  rw [separated_iff fun t s h => slash_not_mem_segment h, pieces_concat_slash] at h
  obtain ⟨t, -, ht⟩ := Outcome.exists_of_mem_forall₂ h.flip
    (List.mem_append_right _ List.mem_cons_self : [] ∈ Text.pieces '/' s ++ [[]])
  exact ht.ne_nil rfl

theorem not_endsInSlash {ts : List Segment} {s : List Char}
    (h : Separated '/' SpellsSegment ts s) :
    ((Text.pieces '/' s).getLast? = some [] && 1 < (Text.pieces '/' s).length) = false := by
  rw [← Bool.not_eq_true, endsInSlash_iff]
  rintro ⟨r, rfl⟩
  exact not_separated_concat_slash h

theorem Separated.text_ne_nil {ts : List Segment} {s : List Char}
    (h : Separated '/' SpellsSegment ts s) : s ≠ [] := by
  cases h with
  | one h => exact h.ne_nil
  | more h _ => exact List.append_ne_nil_of_left_ne_nil h.ne_nil _

/-- A path is read from a text exactly if the text spells it. -/
theorem readPath_eq_some {s : List Char} {ts : List Segment} {trailing : Bool} :
    readPath s = some (ts, trailing) ↔ SpellsPath ts trailing s := by
  unfold readPath
  constructor
  · intro h
    split at h
    · next hnil =>
      cases h
      rw [List.isEmpty_iff.mp hnil]
      exact SpellsPath.root
    · rw [Option.map_eq_some_iff] at h
      obtain ⟨us, hus, h⟩ := h
      obtain ⟨rfl, htrailing⟩ := Prod.mk.inj h
      cases trailing with
      | true =>
        obtain ⟨r, rfl⟩ := endsInSlash_iff.mp htrailing
        rw [htrailing, if_pos rfl, pieces_concat_slash, List.dropLast_concat] at hus
        exact SpellsPath.closed (mapM_readSegment.mp hus)
      | false =>
        rw [htrailing, if_neg Bool.false_ne_true] at hus
        exact SpellsPath.plain (mapM_readSegment.mp hus)
  · intro h
    cases h with
    | root => rfl
    | plain h =>
      rw [if_neg (by simp [h.text_ne_nil])]
      dsimp only
      rw [not_endsInSlash h, if_neg Bool.false_ne_true, mapM_readSegment.mpr h]
      rfl
    | @closed _ r h =>
      rw [if_neg (by simp)]
      dsimp only
      rw [endsInSlash_iff.mpr ⟨r, rfl⟩, if_pos rfl, pieces_concat_slash, List.dropLast_concat,
        mapM_readSegment.mpr h]
      rfl

/-! ## Queries -/

/-- A pair is read from a text without ampersands exactly if the text spells it. -/
theorem readPair_eq_some {s : List Char} (hs : '&' ∉ s) {p : String × String} :
    readPair s = some p ↔ SpellsPair p s := by
  constructor
  · intro h
    unfold readPair at h
    cases hcut : Text.cut '=' s with
    | mk key value =>
      obtain ⟨-, rfl⟩ := Text.of_cut hcut
      rw [hcut] at h
      dsimp only at h
      split at h
      · next hkey =>
        cases h
        rw [Bool.and_eq_true, List.all_eq_true, Bool.not_eq_true', List.isEmpty_eq_false_iff]
          at hkey
        cases value with
        | none =>
          rw [Option.map_none, Option.getD_none, List.append_nil]
          exact SpellsPair.bare hkey.1 hkey.2
        | some v =>
          rw [Option.map_some, Option.getD_some, List.mem_append, List.mem_cons, not_or,
            not_or] at hs
          exact SpellsPair.valued hkey.1 hkey.2 hs.2.2
      · cases h
  · intro h
    have hsign : ∀ {k : List Char}, (∀ c ∈ k, isKeyChar c = true) → '=' ∉ k := fun hk hmem =>
      absurd (hk '=' hmem) (by decide)
    have hkey : ∀ {k : List Char}, k ≠ [] → (∀ c ∈ k, isKeyChar c = true) →
        (!k.isEmpty && k.all isKeyChar) = true := fun hne hk => by
      rw [Bool.and_eq_true, List.all_eq_true, Bool.not_eq_true', List.isEmpty_eq_false_iff]
      exact ⟨hne, hk⟩
    unfold readPair
    cases h with
    | bare hne hk =>
      rw [Text.cut_of_not_mem (hsign hk)]
      dsimp only
      rw [hkey hne hk]
      rfl
    | valued hne hk hv =>
      rw [Text.cut_append_sep (hsign hk)]
      dsimp only
      rw [hkey hne hk]
      rfl

theorem ampersand_not_mem_pair {p : String × String} {s : List Char} (h : SpellsPair p s) :
    '&' ∉ s := by
  have hkey : ∀ {k : List Char}, (∀ c ∈ k, isKeyChar c = true) → '&' ∉ k := fun hk hmem =>
    absurd (hk '&' hmem) (by decide)
  cases h with
  | bare _ hk => exact hkey hk
  | valued _ hk hv =>
    rw [List.mem_append, List.mem_cons, not_or, not_or]
    exact ⟨hkey hk, by decide, hv⟩

theorem mapM_readPair {s : List Char} {qs : List (String × String)} :
    (Text.pieces '&' s).mapM readPair = some qs ↔ Separated '&' SpellsPair qs s := by
  rw [separated_iff fun p s h => ampersand_not_mem_pair h, Outcome.mapM_eq_some]
  have hpiece : ∀ p ∈ Text.pieces '&' s, '&' ∉ p := fun p hp => Text.not_mem_of_mem_pieces hp
  generalize Text.pieces '&' s = ps at hpiece
  induction ps generalizing qs with
  | nil => rw [List.forall₂_nil_left_iff, List.forall₂_nil_left_iff]
  | cons p ps ih =>
    rw [List.forall₂_cons_left_iff, List.forall₂_cons_left_iff]
    simp only [readPair_eq_some (hpiece p List.mem_cons_self),
      ih fun q hq => hpiece q (List.mem_cons_of_mem p hq)]

/-! ## Patterns -/

theorem question_not_mem_path {ts : List Segment} {trailing : Bool} {s : List Char}
    (h : SpellsPath ts trailing s) : '?' ∉ s := by
  have hsegments : ∀ {ts s}, Separated '/' SpellsSegment ts s → '?' ∉ s := by
    intro ts s h hmem
    have hall : ∀ d ∈ s, d ≠ '?' := h.forall_mem
      (fun _ _ ht d hd he => not_mem_segment rfl rfl (by decide) ht (he ▸ hd)) (by decide)
    exact hall _ hmem rfl
  cases h with
  | root => exact List.not_mem_nil
  | plain h => exact hsegments h
  | closed h =>
    rw [List.mem_append, List.mem_singleton, not_or]
    exact ⟨hsegments h, by decide⟩

/-- The grammar alone: a pattern is read from a text exactly if the text spells it. -/
theorem readChars_eq_some {s : List Char} {p : Pattern} : readChars s = some p ↔ Spells p s := by
  constructor
  · intro h
    unfold readChars at h
    split at h
    · next r =>
      cases hcut : Text.cut '?' r with
      | mk path query =>
        obtain ⟨-, rfl⟩ := Text.of_cut hcut
        simp only [hcut, Option.bind_eq_bind, Option.bind_eq_some_iff, Option.pure_def] at h
        obtain ⟨⟨ts, trailing⟩, hpath, qs, hquery, h⟩ := h
        cases h
        refine Spells.pattern (readPath_eq_some.mp hpath) ?_
        cases query with
        | none =>
          cases hquery
          exact SpellsQuery.absent
        | some q => exact SpellsQuery.given (mapM_readPair.mp hquery)
    · cases h
  · intro h
    cases h with
    | @pattern ts trailing qs path query hpath hquery =>
      have hmark := question_not_mem_path hpath
      have hread := readPath_eq_some.mpr hpath
      unfold readChars
      cases hquery with
      | absent =>
        rw [List.append_nil]
        simp only [Text.cut_of_not_mem hmark, hread, Option.bind_eq_bind, Option.bind_some]
        rfl
      | given hq =>
        simp only [Text.cut_append_sep hmark, hread, Option.bind_eq_bind, Option.bind_some,
          readQuery, mapM_readPair.mpr hq, Option.pure_def]

/-! ## Writing -/

/-- A pair without the equals sign if nothing stands behind it. -/
def tidyPair (s : List Char) : List Char :=
  match Text.cut '=' s with
  | (key, some []) => key
  | _ => s

/-- The text of a pattern without the equals signs that no value follows. -/
def tidy (s : List Char) : List Char :=
  match Text.cut '?' s with
  | (path, none) => path
  | (path, some query) => path ++ '?' :: Text.join '&' ((Text.pieces '&' query).map tidyPair)

theorem segmentText_of_spells {t : Segment} {s : List Char} (h : SpellsSegment t s) :
    segmentText t = s := by
  cases h with
  | literal _ _ => exact String.toList_ofList
  | label _ => rw [segmentText, String.toList_ofList]; rfl
  | greedy _ => rw [segmentText, String.toList_ofList]; rfl

/-- A pair is written as it was spelled, without an equals sign that nothing follows. -/
theorem pairText_of_spells {p : String × String} {s : List Char} (h : SpellsPair p s) :
    pairText p = tidyPair s := by
  have hsign : ∀ {k : List Char}, (∀ c ∈ k, isKeyChar c = true) → '=' ∉ k := fun hk hmem =>
    absurd (hk '=' hmem) (by decide)
  unfold pairText tidyPair
  cases h with
  | bare _ hk => rw [Text.cut_of_not_mem (hsign hk), if_pos rfl, List.append_nil,
      String.toList_ofList]
  | @valued k v _ hk _ =>
    rw [Text.cut_append_sep (hsign hk), String.toList_ofList]
    cases v with
    | nil => exact List.append_nil k
    | cons c v => rw [if_neg (by simp), String.toList_ofList]

/-- What is written for a pair spells it. -/
theorem spells_pairText {p : String × String} {s : List Char} (h : SpellsPair p s) :
    SpellsPair p (pairText p) := by
  unfold pairText
  cases h with
  | bare hne hk =>
    rw [if_pos rfl, List.append_nil, String.toList_ofList]
    exact SpellsPair.bare hne hk
  | @valued k v hne hk hv =>
    rw [String.toList_ofList]
    cases v with
    | nil =>
      rw [if_pos String.ofList_nil, List.append_nil]
      exact SpellsPair.bare hne hk
    | cons c v =>
      rw [if_neg (by simp), String.toList_ofList]
      exact SpellsPair.valued hne hk hv

/-- Items written one after the other are spelled if each of them is. -/
theorem Separated.join_map {α : Type} {c : Char} {spells : α → List Char → Prop} {xs : List α}
    {s : List Char} (h : Separated c spells xs s) {f : α → List Char}
    (hf : ∀ x s, spells x s → spells x (f x)) :
    Separated c spells xs (Text.join c (xs.map f)) := by
  induction h with
  | one h => exact Separated.one (hf _ _ h)
  | @more x xs s r h hr ih =>
    rw [List.map_cons, Text.join_cons c _ (by simp [hr.ne_nil])]
    exact Separated.more (hf x s h) ih

theorem join_of_separated {α : Type} {c : Char} {spells : α → List Char → Prop} {xs : List α}
    {s : List Char} (h : Separated c spells xs s) {f : α → List Char} {g : List Char → List Char}
    (hc : ∀ x s, spells x s → c ∉ s) (hfg : ∀ x s, spells x s → f x = g s) :
    Text.join c (xs.map f) = Text.join c ((Text.pieces c s).map g) :=
  congrArg (Text.join c)
    (Outcome.map_eq_of_forall₂ ((separated_iff hc).mp h) fun s x hx => hfg x s hx)

theorem join_segmentText {ts : List Segment} {s : List Char}
    (h : Separated '/' SpellsSegment ts s) : Text.join '/' (ts.map segmentText) = s := by
  rw [join_of_separated (g := id) h (fun _ _ => slash_not_mem_segment)
    fun _ _ => segmentText_of_spells, List.map_id, Text.join_pieces]

theorem path_of_spells {ts : List Segment} {trailing : Bool} {s : List Char}
    (h : SpellsPath ts trailing s) :
    Text.join '/' (ts.map segmentText) ++ (if trailing then ['/'] else []) = s := by
  cases h with
  | root => rfl
  | plain h => rw [join_segmentText h, if_neg Bool.false_ne_true, List.append_nil]
  | closed h => rw [join_segmentText h, if_pos rfl]

/-- A pattern is written as it was spelled, up to the equals signs that no value follows. -/
theorem chars_of_spells {p : Pattern} {s : List Char} (h : Spells p s) : p.chars = tidy s := by
  cases h with
  | @pattern ts trailing qs path query hpath hquery =>
    have hmark : '?' ∉ '/' :: path := by
      rw [List.mem_cons, not_or]
      exact ⟨by decide, question_not_mem_path hpath⟩
    unfold chars tidy
    dsimp only
    rw [List.cons_append, path_of_spells hpath, ← List.cons_append]
    cases hquery with
    | absent => rw [List.append_nil, Text.cut_of_not_mem hmark]; exact List.append_nil _
    | given hq =>
      rw [Text.cut_append_sep hmark, if_neg (by simp [hq.ne_nil]),
        join_of_separated hq (fun _ _ => ampersand_not_mem_pair) fun _ _ => pairText_of_spells]

/-- The text of a pattern spells it. -/
theorem spells_chars {p : Pattern} {s : List Char} (h : Spells p s) : Spells p p.chars := by
  cases h with
  | @pattern ts trailing qs path query hpath hquery =>
    unfold chars
    dsimp only
    rw [List.cons_append, path_of_spells hpath, List.cons_append]
    refine Spells.pattern hpath ?_
    cases hquery with
    | absent => exact SpellsQuery.absent
    | given hq =>
      rw [if_neg (by simp [hq.ne_nil])]
      exact SpellsQuery.given (hq.join_map fun _ _ => spells_pairText)

/-! ## Reading -/

/-- How many labels are greedy. -/
def greedyCount (p : Pattern) : Nat := (p.segments.filter fun s => s.kind = .greedy).length

/-- What a text gives is told by the pattern that it spells, if there is one. -/
theorem parse_of_spells {text : String} {p : Pattern} (h : Spells p text.toList) :
    parse text = if 1 < p.greedyCount then .error (.severalGreedy text)
      else if p.labels.Nodup then .ok p else .error (.repeatedLabel text) := by
  unfold parse greedyCount
  rw [readChars_eq_some.mpr h]
  dsimp only
  by_cases hlabels : p.labels.Nodup
  · rw [hasRepeats_eq_false.mpr hlabels, if_pos hlabels, if_neg Bool.false_ne_true]
  · have hrepeats : hasRepeats p.labels = true := by
      rwa [← Bool.not_eq_false, hasRepeats_eq_false]
    rw [hrepeats, if_neg hlabels, if_pos rfl]

theorem parse_of_not_spells {text : String} (h : ¬ ∃ p, Spells p text.toList) :
    parse text = .error (.malformed text) := by
  unfold parse
  cases hread : readChars text.toList with
  | none => rfl
  | some p => exact absurd ⟨p, readChars_eq_some.mp hread⟩ h

theorem parse_eq_ok {text : String} {p : Pattern} : parse text = .ok p ↔
    Spells p text.toList ∧ p.greedyCount ≤ 1 ∧ p.labels.Nodup := by
  constructor
  · intro h
    by_cases hspells : ∃ q, Spells q text.toList
    · obtain ⟨q, hq⟩ := hspells
      rw [parse_of_spells hq] at h
      split at h
      · cases h
      · next hgreedy =>
        split at h
        · next hlabels =>
          cases h
          exact ⟨hq, by omega, hlabels⟩
        · cases h
    · rw [parse_of_not_spells hspells] at h
      cases h
  · rintro ⟨h, hgreedy, hlabels⟩
    rw [parse_of_spells h, if_neg (by omega), if_pos hlabels]

/-- A text spells one pattern at most. -/
theorem Spells.unique {p q : Pattern} {s : List Char} (hp : Spells p s) (hq : Spells q s) :
    p = q := by
  have hread := readChars_eq_some.mpr hp
  rw [readChars_eq_some.mpr hq] at hread
  exact (Option.some.inj hread).symm

theorem parse_eq_malformed {text : String} : parse text = .error (.malformed text) ↔
    ¬ ∃ p, Spells p text.toList := by
  constructor
  · rintro h ⟨p, hp⟩
    rw [parse_of_spells hp] at h
    split at h
    · cases h
    · split at h
      · cases h
      · cases h
  · exact parse_of_not_spells

/-- A text that spells a pattern fails only with the pattern's labels. -/
theorem parse_eq_error_of_spells {text : String} {e : PatternError} {bad : Pattern → Prop}
    (he : e ≠ .malformed text)
    (h : ∀ p, Spells p text.toList → (parse text = .error e ↔ bad p)) :
    parse text = .error e ↔ ∃ p, Spells p text.toList ∧ bad p := by
  by_cases hspells : ∃ p, Spells p text.toList
  · obtain ⟨p, hp⟩ := hspells
    rw [h p hp]
    constructor
    · exact fun hbad => ⟨p, hp, hbad⟩
    · rintro ⟨q, hq, hbad⟩
      exact hp.unique hq ▸ hbad
  · rw [parse_of_not_spells hspells]
    refine iff_of_false (fun h => he (Except.error.inj h).symm) ?_
    rintro ⟨p, hp, -⟩
    exact hspells ⟨p, hp⟩

theorem parse_eq_severalGreedy {text : String} : parse text = .error (.severalGreedy text) ↔
    ∃ p, Spells p text.toList ∧ 1 < p.greedyCount := by
  refine parse_eq_error_of_spells (fun h => by cases h) fun p hp => ?_
  rw [parse_of_spells hp]
  split
  · next h => exact iff_of_true rfl h
  · next h =>
    refine iff_of_false (fun he => ?_) h
    split at he
    · cases he
    · cases he

theorem parse_eq_repeatedLabel {text : String} : parse text = .error (.repeatedLabel text) ↔
    ∃ p, Spells p text.toList ∧ p.greedyCount ≤ 1 ∧ ¬ p.labels.Nodup := by
  refine parse_eq_error_of_spells (fun h => by cases h) fun p hp => ?_
  rw [parse_of_spells hp]
  split
  · next h => exact iff_of_false (fun he => by cases he) fun hp => absurd h (Nat.not_lt.mpr hp.1)
  · next h =>
    split
    · next hlabels => exact iff_of_false (fun he => by cases he) fun hp => hp.2 hlabels
    · next hlabels => exact iff_of_true rfl ⟨Nat.not_lt.mp h, hlabels⟩

/-- What is written for a pattern is read as that pattern. -/
theorem parse_text {text : String} {p : Pattern} (h : parse text = .ok p) :
    parse p.text = .ok p ∧ p.text.toList = tidy text.toList := by
  obtain ⟨hspells, hgreedy, hlabels⟩ := parse_eq_ok.mp h
  have hchars : p.text.toList = p.chars := String.toList_ofList
  refine ⟨parse_eq_ok.mpr ⟨?_, hgreedy, hlabels⟩, ?_⟩
  · rw [hchars]
    exact spells_chars hspells
  · rw [hchars, chars_of_spells hspells]

/-- A text is read as a pattern exactly if it spells it, at most one label is greedy and none comes
twice, and the error for any other text tells which of these fails. A pattern that was read is
written as its text was, without the equals signs that no value follows, and what is written is read
as the same pattern. -/
theorem parse_spelled_and_written (text : String) :
    (∀ p, parse text = .ok p ↔
      Spells p text.toList ∧ p.greedyCount ≤ 1 ∧ p.labels.Nodup) ∧
    (parse text = .error (.malformed text) ↔ ¬ ∃ p, Spells p text.toList) ∧
    (parse text = .error (.severalGreedy text) ↔
      ∃ p, Spells p text.toList ∧ 1 < p.greedyCount) ∧
    (parse text = .error (.repeatedLabel text) ↔
      ∃ p, Spells p text.toList ∧ p.greedyCount ≤ 1 ∧ ¬ p.labels.Nodup) ∧
    ∀ p, parse text = .ok p → parse p.text = .ok p ∧ p.text.toList = tidy text.toList :=
  ⟨fun _ => parse_eq_ok, parse_eq_malformed, parse_eq_severalGreedy, parse_eq_repeatedLabel,
    fun _ => parse_text⟩

/-- A pattern with a slash at its end and a key whose value is missing behind its equals sign. -/
theorem parse_written_bare_key :
    let p : Pattern := ⟨[⟨.literal, "items"⟩, ⟨.label, "Bucket"⟩, ⟨.greedy, "Key"⟩], true,
      [("x-id", ""), ("list", "a=b?")]⟩
    let text := "/items/\x7bBucket\x7d/\x7bKey+\x7d/?x-id=&list=a=b?"
    parse text = .ok p ∧
      p.text = "/items/\x7bBucket\x7d/\x7bKey+\x7d/?x-id&list=a=b?" ∧ parse p.text = .ok p := by
  intro p text
  have hread : parse text = .ok p := by decide +kernel
  exact ⟨hread, by decide +kernel, ((parse_spelled_and_written text).2.2.2.2 p hread).1⟩

end Wireform.Pattern
