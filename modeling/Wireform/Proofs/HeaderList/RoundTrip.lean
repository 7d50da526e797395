import Wireform.HeaderList
import Wireform.Proofs.Text.Trim

/-
  Wireform header lists: what is written is read back. `split_quoted_lines` says so for every list
  of texts, every way of spreading it over lines and every run of spaces and tabs around the
  elements; `firstItem_padded` is the step, one element with the comma behind it.
-/

namespace Wireform.HeaderList

/-! ## Lines as they are sent -/

/-- An element as it stands in a line: its text, and the spaces and tabs around it. -/
structure Padded where
  before : List Char
  text : String
  after : List Char
  before_pad : before.all Text.isPad = true
  after_pad : after.all Text.isPad = true

/-- The element with its quotes, if it needs them, and its padding. -/
def Padded.chars (e : Padded) : List Char := e.before ++ (quote e.text).toList ++ e.after

/-- The elements of one line. There is at least one. -/
structure Line where
  first : Padded
  rest : List Padded

namespace Line

def elements (l : Line) : List Padded := l.first :: l.rest

def texts (l : Line) : List String := l.elements.map (·.text)

/-- The line itself: the elements with a comma between each two. -/
def value (l : Line) : String := String.ofList (Text.join ',' (l.elements.map Padded.chars))

end Line

/-- The line that an encoder writes for a list of texts. -/
def write (ts : List String) : String := ", ".intercalate (ts.map quote)

/-! ## Characters of an element -/

theorem toList_quote (s : String) : (quote s).toList = quoteChars s.toList := String.toList_ofList

theorem quoteChars_of_needs {s : List Char} (h : needsQuotes s = true) :
    quoteChars s = '"' :: (s.flatMap escapeChar ++ ['"']) := by
  unfold quoteChars
  rw [if_pos h]
  rfl

theorem quoteChars_of_bare {s : List Char} (h : needsQuotes s = false) : quoteChars s = s := by
  unfold quoteChars
  rw [h]
  rfl

/-- What a text is that may stand without quotes. -/
theorem bare_of_needsQuotes {s : List Char} (h : needsQuotes s = false) :
    s ≠ [] ∧ Text.trim Text.isBlank s = s ∧ ',' ∉ s ∧ '"' ∉ s := by
  simp only [needsQuotes, Bool.or_eq_false_iff, decide_eq_false_iff_not, ne_eq,
    Decidable.not_not] at h
  obtain ⟨⟨hnil, htrim⟩, hany⟩ := h
  rw [List.any_eq_false] at hany
  refine ⟨fun h => by simp [h] at hnil, htrim, fun hc => ?_, fun hc => ?_⟩
  · exact hany ',' hc (by decide)
  · exact hany '"' hc (by decide)

theorem readQuoted_escape (s r : List Char) :
    readQuoted (s.flatMap escapeChar ++ '"' :: r) = some (s, r) := by
  induction s with
  | nil => rfl
  | cons c s ih =>
    rw [List.flatMap_cons, List.append_assoc]
    by_cases hb : c = '\\'
    · subst hb
      simp [escapeChar, readQuoted, ih]
    · by_cases hq : c = '"'
      · subst hq
        simp [escapeChar, readQuoted, ih]
      · have he : escapeChar c = [c] := by simp [escapeChar, hb, hq]
        rw [he, List.singleton_append, readQuoted, ih]
        · rfl
        · exact hq
        · exact fun _ _ h => absurd h hb

theorem dropWhile_isPad_of_trim {s : List Char} (h : Text.trim Text.isBlank s = s) :
    s.dropWhile Text.isPad = s := by
  cases s with
  | nil => rfl
  | cons c r =>
    have hblank := Text.head_not_of_dropWhile_eq_self (Text.dropWhile_eq_self_of_trim h)
    have hpad : ¬ Text.isPad c = true := fun hp => by
      rw [Text.isBlank_of_isPad hp] at hblank
      exact Bool.noConfusion hblank
    exact List.dropWhile_cons_of_neg hpad

/-! ## One element -/

/-- What stands behind an element: the end of the line, or a comma and the rest. -/
def behind : Option (List Char) → List Char
  | none => []
  | some v => ',' :: v

theorem dropWhile_isPad_behind {w : List Char} (hw : w.all Text.isPad = true)
    (o : Option (List Char)) : (w ++ behind o).dropWhile Text.isPad = behind o := by
  rw [Text.dropWhile_append_left hw]
  cases o with
  | none => rfl
  | some v => rfl

theorem firstItem_quoted {w w' : List Char} (hw : w.all Text.isPad = true)
    (hw' : w'.all Text.isPad = true) (s : List Char) (o : Option (List Char)) :
    firstItem (w ++ '"' :: (s.flatMap escapeChar ++ '"' :: (w' ++ behind o))) = .ok (s, o) := by
  have hdrop :
      (w ++ '"' :: (s.flatMap escapeChar ++ '"' :: (w' ++ behind o))).dropWhile Text.isPad =
        '"' :: (s.flatMap escapeChar ++ '"' :: (w' ++ behind o)) := by
    rw [Text.dropWhile_append_left hw]
    rfl
  unfold firstItem
  split
  · next t ht =>
    rw [hdrop, List.cons.injEq] at ht
    rw [← ht.2, readQuoted_escape]
    dsimp only
    rw [dropWhile_isPad_behind hw']
    cases o with
    | none => rfl
    | some v => rfl
  · next hne => exact absurd hdrop (hne _)

theorem takeWhile_bare {s : List Char} (hs : ',' ∉ s) (o : Option (List Char)) :
    (s ++ behind o).takeWhile (fun c => decide (c ≠ ',')) = s ∧
      (s ++ behind o).dropWhile (fun c => decide (c ≠ ',')) = behind o := by
  have hall : ∀ c ∈ s, decide (c ≠ ',') = true := fun c hc =>
    decide_eq_true fun h => hs (h ▸ hc)
  rw [List.takeWhile_append_of_pos hall, List.dropWhile_append_of_pos hall]
  cases o with
  | none => simp [behind]
  | some v => simp [behind]

theorem firstItem_bare {w w' s : List Char} (hw : w.all Text.isPad = true)
    (hw' : w'.all Text.isPad = true) (hs : needsQuotes s = false) (o : Option (List Char)) :
    firstItem (w ++ (s ++ (w' ++ behind o))) = .ok (s, o) := by
  obtain ⟨hnil, htrim, hcomma, hquote⟩ := bare_of_needsQuotes hs
  have hdrop : (w ++ (s ++ (w' ++ behind o))).dropWhile Text.isPad = s ++ w' ++ behind o := by
    rw [Text.dropWhile_append_left hw, List.append_assoc]
    exact Text.dropWhile_append_of_eq_self hnil (dropWhile_isPad_of_trim htrim) _
  have hcomma' : ',' ∉ s ++ w' := by
    rw [List.mem_append]
    rintro (h | h)
    · exact hcomma h
    · exact absurd (List.all_eq_true.mp hw' _ h) (by decide)
  obtain ⟨htake, hrest⟩ := takeWhile_bare hcomma' o
  unfold firstItem
  split
  · next t ht =>
    cases s with
    | nil => exact absurd rfl hnil
    | cons c r =>
      rw [hdrop, List.cons_append, List.cons_append, List.cons.injEq] at ht
      exact absurd (ht.1 ▸ List.mem_cons_self) hquote
  · rw [hdrop]
    dsimp only
    rw [htake, hrest, Text.trim_append hnil htrim (Text.all_isBlank_of_all_isPad hw')]
    cases o with
    | none => rfl
    | some v => rfl

/-- Reading a line gives its first element and what stands behind the comma. -/
theorem firstItem_padded (e : Padded) (o : Option (List Char)) :
    firstItem (e.chars ++ behind o) = .ok (e.text.toList, o) := by
  unfold Padded.chars
  rw [toList_quote]
  cases h : needsQuotes e.text.toList with
  | true =>
    rw [quoteChars_of_needs h]
    have := firstItem_quoted e.before_pad e.after_pad e.text.toList o
    simpa using this
  | false =>
    rw [quoteChars_of_bare h]
    have := firstItem_bare e.before_pad e.after_pad h o
    simpa using this

/-! ## One line -/

/-- An element ends in a character that is neither white space nor a comma. -/
theorem getLast?_quoteChars (s : List Char) : ∃ c, (quoteChars s).getLast? = some c ∧
    Text.isBlank c = false ∧ c ≠ ',' := by
  cases h : needsQuotes s with
  | true =>
    refine ⟨'"', ?_, by decide, by decide⟩
    rw [quoteChars_of_needs h, ← List.cons_append, List.getLast?_concat]
  | false =>
    obtain ⟨hnil, htrim, hcomma, -⟩ := bare_of_needsQuotes h
    have hlast := List.getLast?_eq_some_getLast hnil
    refine ⟨s.getLast hnil, ?_, ?_, ?_⟩
    · rw [quoteChars_of_bare h, hlast]
    · apply Text.not_of_getLast?_trimEnd (s := s)
      rw [Text.trimEnd_eq_self_of_trim htrim, hlast]
    · exact fun hc => hcomma (hc ▸ List.getLast_mem hnil)

theorem Padded.chars_ne_nil (e : Padded) : e.chars ≠ [] := by
  obtain ⟨c, hc, -⟩ := getLast?_quoteChars e.text.toList
  unfold Padded.chars
  rw [toList_quote]
  intro h
  have hq : quoteChars e.text.toList = [] :=
    (List.append_eq_nil_iff.mp (List.append_eq_nil_iff.mp h).1).2
  rw [hq] at hc
  exact absurd hc (by simp)

theorem items_of_firstItem {s : List Char} (hs : s ≠ []) {item : List Char}
    {o : Option (List Char)} (h : firstItem s = .ok (item, o)) :
    items s = match o with
      | none => .ok [item]
      | some v => (items v).map (item :: ·) := by
  cases s with
  | nil => exact absurd rfl hs
  | cons c r =>
    rw [items]
    split
    · next he => rw [h] at he; cases he
    · next he => rw [h] at he; cases he; rfl
    · next he => rw [h] at he; cases he; rfl

theorem items_line (e : Padded) (es : List Padded) :
    items (Text.join ',' ((e :: es).map Padded.chars)) =
      .ok ((e :: es).map fun e => e.text.toList) := by
  induction es generalizing e with
  | nil =>
    have h := firstItem_padded e none
    rw [behind, List.append_nil] at h
    exact items_of_firstItem e.chars_ne_nil h
  | cons e' es ih =>
    have hjoin : Text.join ',' ((e :: e' :: es).map Padded.chars) =
        e.chars ++ behind (some (Text.join ',' ((e' :: es).map Padded.chars))) := rfl
    rw [hjoin, items_of_firstItem _ (firstItem_padded e _)]
    · dsimp only
      rw [ih e']
      rfl
    · exact fun h => e.chars_ne_nil (List.append_eq_nil_iff.mp h).1

/-- A line ends with one of its elements. -/
theorem exists_join_eq_append (e : Padded) (es : List Padded) :
    ∃ x, ∃ e' : Padded, Text.join ',' ((e :: es).map Padded.chars) = x ++ e'.chars := by
  induction es generalizing e with
  | nil => exact ⟨[], e, rfl⟩
  | cons e' es ih =>
    obtain ⟨x, l, hx⟩ := ih e'
    refine ⟨e.chars ++ ',' :: x, l, ?_⟩
    have hjoin : Text.join ',' ((e :: e' :: es).map Padded.chars) =
        e.chars ++ ',' :: Text.join ',' ((e' :: es).map Padded.chars) := rfl
    rw [hjoin, hx, List.append_assoc, List.cons_append]

/-- What a line shows at its end once white space there is dropped. -/
theorem getLast?_trimEnd_line (e : Padded) (es : List Padded) :
    ∃ c, (Text.trimEnd Text.isBlank (Text.join ',' ((e :: es).map Padded.chars))).getLast? =
      some c ∧ Text.isBlank c = false ∧ c ≠ ',' := by
  obtain ⟨x, l, hx⟩ := exists_join_eq_append e es
  obtain ⟨c, hc, hblank, hcomma⟩ := getLast?_quoteChars l.text.toList
  refine ⟨c, ?_, hblank, hcomma⟩
  have hlast : (x ++ (l.before ++ quoteChars l.text.toList)).getLast? = some c := by
    rw [List.getLast?_append, List.getLast?_append, hc]
    rfl
  have hl : l.chars = l.before ++ quoteChars l.text.toList ++ l.after := by
    rw [← toList_quote]
    rfl
  rw [hx, hl, ← List.append_assoc,
    Text.trimEnd_append _ (Text.all_isBlank_of_all_isPad l.after_pad),
    Text.trimEnd_of_getLast? hlast hblank]
  exact hlast

theorem splitOne_line (e : Padded) (es : List Padded) :
    splitOne (Text.join ',' ((e :: es).map Padded.chars)) =
      .ok ((e :: es).map fun e => e.text.toList) := by
  obtain ⟨c, hc, -, hcomma⟩ := getLast?_trimEnd_line e es
  unfold splitOne
  rw [items_line, hc]
  simp [Except.map, hcomma]

theorem not_all_isBlank_line (e : Padded) (es : List Padded) :
    (Text.join ',' ((e :: es).map Padded.chars)).all Text.isBlank = false := by
  obtain ⟨c, hc, hblank, -⟩ := getLast?_trimEnd_line e es
  rw [List.all_eq_false]
  refine ⟨c, Text.mem_of_mem_trimEnd (List.mem_of_getLast? hc), ?_⟩
  rw [hblank]
  exact Bool.false_ne_true

/-! ## All lines -/

theorem toList_value (l : Line) : l.value.toList = Text.join ',' (l.elements.map Padded.chars) :=
  String.toList_ofList

theorem splitChars_lines (lines : List Line) :
    splitChars (lines.map fun l => l.value.toList) =
      .ok ((lines.flatMap Line.texts).map String.toList) := by
  induction lines with
  | nil => rfl
  | cons l lines ih =>
    have htexts : l.texts.map String.toList = (l.first :: l.rest).map fun e => e.text.toList := by
      unfold Line.texts
      rw [List.map_map]
      rfl
    rw [List.map_cons, List.flatMap_cons, List.map_append, htexts, splitChars, ih, toList_value,
      Line.elements, not_all_isBlank_line, splitOne_line]
    rfl

theorem split_lines (lines : List Line) :
    split (lines.map Line.value) = .ok (lines.flatMap Line.texts) := by
  have hmap : (lines.map Line.value).map String.toList = lines.map fun l => l.value.toList := by
    rw [List.map_map]
    rfl
  have hid : String.ofList ∘ String.toList = id := funext fun _ => String.ofList_toList
  unfold split
  rw [hmap, splitChars_lines]
  dsimp only [Except.map]
  rw [List.map_map, hid, List.map_id]

/-! ## The line of an encoder -/

/-- A text behind `before`, which a space or nothing stands for. -/
def Padded.behindSpaces (n : Nat) (t : String) : Padded where
  before := List.replicate n ' '
  text := t
  after := []
  before_pad := by
    rw [List.all_eq_true]
    intro c hc
    rw [List.eq_of_mem_replicate hc]
    rfl
  after_pad := rfl

/-- The elements of the line that an encoder writes: all but the first one stand behind a space. -/
def Line.written (t : String) (ts : List String) : Line :=
  ⟨.behindSpaces 0 t, ts.map (.behindSpaces 1)⟩

theorem texts_written (t : String) (ts : List String) : (Line.written t ts).texts = t :: ts := by
  have hmap : (ts.map (Padded.behindSpaces 1)).map (·.text) = ts := by
    rw [List.map_map]
    exact List.map_id ts
  unfold Line.texts Line.elements Line.written
  rw [List.map_cons, hmap]
  rfl

theorem chars_behindSpaces (n : Nat) (t : String) :
    (Padded.behindSpaces n t).chars = List.replicate n ' ' ++ (quote t).toList :=
  List.append_nil _

theorem join_behindSpaces (n : Nat) (t : String) (ts : List String) :
    Text.join ',' ((Padded.behindSpaces n t :: ts.map (.behindSpaces 1)).map Padded.chars) =
      List.replicate n ' ' ++ (write (t :: ts)).toList := by
  induction ts generalizing n t with
  | nil =>
    rw [write, List.map_singleton, String.intercalate_singleton]
    exact chars_behindSpaces n t
  | cons u ts ih =>
    have hjoin : Text.join ',' ((Padded.behindSpaces n t ::
        (u :: ts).map (.behindSpaces 1)).map Padded.chars) =
          (Padded.behindSpaces n t).chars ++ ',' ::
            Text.join ',' ((Padded.behindSpaces 1 u ::
              ts.map (.behindSpaces 1)).map Padded.chars) := rfl
    have hwrite : write (t :: u :: ts) = quote t ++ ", " ++ write (u :: ts) := by
      unfold write
      rw [List.map_cons, List.map_cons, String.intercalate_cons_cons]
    rw [hjoin, ih, chars_behindSpaces, hwrite, String.toList_append, String.toList_append,
      List.append_assoc, List.append_assoc]
    rfl

theorem value_written (t : String) (ts : List String) :
    (Line.written t ts).value = write (t :: ts) := by
  rw [← String.toList_inj, toList_value]
  exact join_behindSpaces 0 t ts

theorem split_write (ts : List String) : split [write ts] = .ok ts := by
  cases ts with
  | nil => rfl
  | cons t ts =>
    rw [← value_written, ← List.map_singleton, split_lines, List.flatMap_singleton, texts_written]

/-- A list of texts comes back from its lines: however it is spread over them, and whatever spaces
and tabs stand around the elements. The line of an encoder is one way to write it. -/
theorem split_quoted_lines :
    (∀ lines : List Line, split (lines.map Line.value) = .ok (lines.flatMap Line.texts)) ∧
      (∀ t ts, ∃ l : Line, l.texts = t :: ts ∧ l.value = write (t :: ts)) ∧
      ∀ ts, split [write ts] = .ok ts :=
  ⟨split_lines, fun t ts => ⟨.written t ts, texts_written t ts, value_written t ts⟩, split_write⟩

/-- Commas, quotes, backslashes and blanks in the elements, on two lines. -/
example : split ["\"a,b\" ,\t\"\\\"\"", "c\\ , \" \""] = .ok ["a,b", "\"", "c\\", " "] := by
  cbv

end Wireform.HeaderList
