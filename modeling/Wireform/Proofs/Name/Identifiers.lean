import Wireform.Proofs.Name
import Wireform.Proofs.Text.Words

/-
  Wireform names: what the names of fields, classes and members of enums look like. A spelling in
  small words is one that `snake` leaves as it is (`snakeChars_eq_self_iff`). `names_usable` says that
  every text at all gives identifiers that mean nothing else, and that spelling it once is enough.
-/

namespace Wireform.Name

/-! ## Words -/

/-- The parts of a text that hold characters are its words of letters and digits. -/
theorem filter_parts (s : List Char) :
    (parts s).filter (· ≠ []) = Text.words (fun c => !Text.isAlnumAscii c) s := by
  have hgo : ∀ (word : List Char) (cut : Bool), (cut = true → word = []) →
      (parts.go word cut s).filter (· ≠ []) =
        (Text.words.go (fun c => !Text.isAlnumAscii c) word s).filter (· ≠ []) := by
    induction s with
    | nil => exact fun _ _ _ => rfl
    | cons c s ih =>
      intro word cut hcut
      rw [parts.go, Text.words.go]
      by_cases hc : Text.isAlnumAscii c = true
      · rw [if_pos hc, if_neg (by simp [hc])]
        exact ih (c :: word) false fun h => absurd h Bool.false_ne_true
      · have hends : (!Text.isAlnumAscii c) = true := by simp [hc]
        have hrest := ih [] true fun _ => rfl
        rw [if_neg hc, if_pos hends]
        cases cut with
        | false => rw [if_neg Bool.false_ne_true, List.filter_cons, List.filter_cons, hrest]
        | true =>
          rw [if_pos rfl, hcut rfl, hrest]
          rfl
  exact hgo [] false fun _ => rfl

/-- Without capitals there is nothing to break. -/
theorem breakAcronyms_of_no_upper {s : List Char} (h : ∀ c ∈ s, Text.isUpperAscii c = false) :
    breakAcronyms s = s := by
  fun_induction breakAcronyms s with
  | case1 a b c r hcond ih => simp [h a] at hcond
  | case2 a b c r hcond ih => rw [ih (List.forall_mem_cons.mp h).2]
  | case3 s => rfl

theorem breakWords_of_no_upper {s : List Char} (h : ∀ c ∈ s, Text.isUpperAscii c = false) :
    breakWords s = s := by
  fun_induction breakWords s with
  | case1 a b r hcond ih => simp [h b] at hcond
  | case2 a b r hcond ih => rw [ih (List.forall_mem_cons.mp h).2]
  | case3 s => rfl

/-! ## Spellings in small words -/

/-- A spelling in small words: lower-case letters and digits, with single bars between them. -/
structure IsSnake (s : List Char) : Prop where
  inside : ∀ c ∈ s, isSnakeChar c = true
  noOuterBars : NoOuterBars s
  noDoubleBar : ¬ ['_', '_'] <:+: s

theorem not_upper_of_isSnakeChar {c : Char} (hc : isSnakeChar c = true) :
    Text.isUpperAscii c = false ∧ (c ≠ '_' → Text.isAlnumAscii c = true) :=
  Text.forall_ascii (p := fun c => isSnakeChar c = true →
    Text.isUpperAscii c = false ∧ (c ≠ '_' → Text.isAlnumAscii c = true))
    (by decide +kernel) (isAscii_of_isSnakeChar hc) hc

/-- The pieces of a spelling in small words between its bars are words. -/
theorem isWord_of_mem_pieces {s w : List Char} (h : IsSnake s) (hne : s ≠ [])
    (hw : w ∈ Text.pieces '_' s) : Text.IsWord (fun c => !Text.isAlnumAscii c) w := by
  refine ⟨?_, fun c hc => ?_⟩
  · rintro rfl
    rcases Text.nil_mem_pieces_iff.mp hw with hs | hs | hs | hs
    · exact hne hs
    · exact h.noOuterBars.1 hs
    · exact h.noOuterBars.2 hs
    · exact h.noDoubleBar hs
  · have hbar : c ≠ '_' := ne_of_mem_of_not_mem hc (Text.not_mem_of_mem_pieces hw)
    have hmem := h.inside c (Text.mem_of_mem_pieces hw hc)
    rw [(not_upper_of_isSnakeChar hmem).2 hbar]
    rfl

/-- A spelling in small words stays as it is. -/
theorem snakeChars_of_isSnake {s : List Char} (h : IsSnake s) : snakeChars s = s := by
  have hupper : ∀ c ∈ s, Text.isUpperAscii c = false := fun c hc =>
    (not_upper_of_isSnakeChar (h.inside c hc)).1
  have hlower : Text.lower s = s := by
    rw [Text.lower_of_isAscii fun c hc => isAscii_of_isSnakeChar (h.inside c hc)]
    refine (List.map_congr_left fun c hc => ?_).trans (List.map_id s)
    unfold Text.lowerAscii
    rw [hupper c hc, if_neg Bool.false_ne_true]
    rfl
  have hjoin : Text.join '_' ((parts s).filter (· ≠ [])) = s := by
    by_cases hnil : s = []
    · rw [hnil]
      rfl
    · have hwords := Text.words_join (c := '_') (by decide) fun _ => isWord_of_mem_pieces h hnil
      rw [Text.join_pieces] at hwords
      rw [filter_parts, hwords, Text.join_pieces]
  unfold snakeChars
  rw [breakAcronyms_of_no_upper hupper, breakWords_of_no_upper hupper, hjoin, hlower]

theorem isSnake_snakeChars (s : List Char) : IsSnake (snakeChars s) := by
  refine ⟨fun c => isSnakeChar_of_mem, noOuterBars_snakeChars s, fun hdouble => ?_⟩
  have hwords : ∀ w ∈ (words s).map (List.map Text.lowerAscii), w ≠ [] ∧ '_' ∉ w := by
    intro w hw
    obtain ⟨v, hv, rfl⟩ := List.mem_map.mp hw
    refine ⟨fun hnil => ne_nil_of_mem_words hv (List.map_eq_nil_iff.mp hnil), fun hbar => ?_⟩
    obtain ⟨c, hc, hlower⟩ := List.mem_map.mp hbar
    have halnum := alnum_of_mem_words hv hc
    exact (isSnakeChar_lowerAscii (Or.inl halnum)).2 (ne_bar_of_alnum halnum) hlower
  rw [snakeChars_eq, Text.map_join (by decide)] at hdouble
  have hnil := Text.nil_mem_pieces_iff.mpr (Or.inr (Or.inr (Or.inr hdouble)))
  by_cases hnone : (words s).map (List.map Text.lowerAscii) = []
  · rw [hnone] at hdouble
    cases List.eq_nil_of_infix_nil hdouble
  · rw [Text.pieces_join '_' hnone,
      Text.flatMap_pieces_of_not_mem fun w hw => (hwords w hw).2] at hnil
    exact (hwords [] hnil).1 rfl

/-- The spellings in small words are those that spelling leaves as they are. -/
theorem snakeChars_eq_self_iff {s : List Char} : snakeChars s = s ↔ IsSnake s :=
  ⟨fun h => h ▸ isSnake_snakeChars s, snakeChars_of_isSnake⟩

theorem snake_eq_self_iff {s : String} : snake s = s ↔ IsSnake s.toList := by
  rw [← String.toList_inj, toList_snake, snakeChars_eq_self_iff]

theorem isSnake_snake (s : String) : IsSnake (snake s).toList := by
  rw [toList_snake]
  exact isSnake_snakeChars s.toList

/-! ## Identifiers -/

/-- ASCII letters, digits and bars. -/
def isNameChar (c : Char) : Bool := Text.isAlnumAscii c || c = '_'

/-- An identifier in ASCII: letters, digits and bars without a digit in front. -/
structure IsIdentifier (s : String) : Prop where
  ne_empty : s ≠ ""
  inside : ∀ c ∈ s.toList, isNameChar c = true
  start : ∀ c ∈ s.toList.head?, Text.isDigitAscii c = false

/-- An identifier that is no keyword, and that has a meaning of its own nowhere unless it is a lone
bar. -/
structure IsUsable (s : String) : Prop where
  isIdentifier : IsIdentifier s
  not_keyword : s ∉ keywords
  soft : s ∈ softKeywords → s = "_"

theorem isIdentifier_iff {s : String} : IsIdentifier s ↔
    s ≠ "" ∧ s.toList.all isNameChar = true ∧ s.toList.head?.any Text.isDigitAscii = false := by
  rw [List.all_eq_true, Option.any_eq_false]
  exact ⟨fun h => ⟨h.ne_empty, h.inside, h.start⟩, fun h => ⟨h.1, h.2.1, h.2.2⟩⟩

instance (s : String) : Decidable (IsIdentifier s) := decidable_of_iff _ isIdentifier_iff.symm

theorem isUsable_iff {s : String} : IsUsable s ↔
    IsIdentifier s ∧ s ∉ keywords ∧ (s ∈ softKeywords → s = "_") :=
  ⟨fun h => ⟨h.isIdentifier, h.not_keyword, h.soft⟩, fun h => ⟨h.1, h.2.1, h.2.2⟩⟩

instance (s : String) : Decidable (IsUsable s) := decidable_of_iff _ isUsable_iff.symm

theorem isDigit_of_isDigitAscii {c : Char} (hc : Text.isDigitAscii c = true) :
    Text.isDigit c = true := by
  have hascii : Text.isAscii c = true :=
    Text.isAscii_of_isAlnumAscii (by simp [Text.isAlnumAscii, hc])
  exact Text.forall_ascii (p := fun c => Text.isDigitAscii c = true → Text.isDigit c = true)
    (by decide +kernel) hascii hc

/-- A bar in front makes an identifier of any name of letters, digits and bars. -/
theorem isUsable_bar_append {s : String} (hne : s ≠ "")
    (hs : ∀ c ∈ s.toList, isNameChar c = true) : IsUsable ("_" ++ s) := by
  have hstart : ∀ w ∈ keywords ++ softKeywords, w.toList.head? = some '_' → w = "_" := by
    decide +kernel
  have hother : "_" ++ s ∉ keywords ++ softKeywords := fun hmem => by
    have hbar := congrArg String.toList (hstart _ hmem (by simp))
    exact hne (by simpa using hbar)
  rw [List.mem_append, not_or] at hother
  refine ⟨⟨by simp, ?_, ?_⟩, hother.1, fun hsoft => absurd hsoft hother.2⟩
  · rw [String.toList_append]
    exact List.forall_mem_append.mpr ⟨List.all_eq_true.mp (by decide), hs⟩
  · rw [String.toList_append]
    intro c hc
    obtain rfl : '_' = c := by simpa using hc
    decide

/-- A name of letters, digits and bars becomes an identifier by stepping aside. -/
theorem isUsable_safe {s : String} (hne : s ≠ "") (hs : ∀ c ∈ s.toList, isNameChar c = true) :
    IsUsable (safe s) := by
  unfold safe
  split
  · next hword =>
    have hbar : ∀ w ∈ keywords ++ softKeywords, IsUsable (w ++ "_") := by decide +kernel
    refine hbar s ?_
    simpa using hword
  next hword =>
  split
  · exact isUsable_bar_append hne hs
  · next hdigit =>
    have hplain : s ∉ keywords ∧ s ∉ softKeywords := by simpa using hword
    refine ⟨⟨hne, hs, fun c hc => ?_⟩, hplain.1, fun hsoft => absurd hsoft hplain.2⟩
    rw [← Bool.not_eq_true]
    intro hascii
    obtain ⟨r, hr⟩ := List.head?_eq_some_iff.mp (Option.mem_def.mp hc)
    rw [hr] at hdigit
    exact hdigit (by simp [isDigit_of_isDigitAscii hascii])

theorem isNameChar_of_isSnakeChar {c : Char} (hc : isSnakeChar c = true) : isNameChar c = true := by
  by_cases hbar : c = '_'
  · rw [hbar]
    decide
  · unfold isNameChar
    rw [(not_upper_of_isSnakeChar hc).2 hbar, Bool.true_or]

theorem isNameChar_upperAscii {c : Char} (hc : isSnakeChar c = true) :
    isNameChar (Text.upperAscii c) = true :=
  Text.forall_ascii (p := fun c => isSnakeChar c = true → isNameChar (Text.upperAscii c) = true)
    (by decide +kernel) (isAscii_of_isSnakeChar hc) hc

/-- A name with a lone bar in place of no name at all. -/
theorem isUsable_safe_or_bar {s : String} (hs : ∀ c ∈ s.toList, isNameChar c = true) :
    IsUsable (safe (if s = "" then "_" else s)) := by
  split
  · decide +kernel
  · next hne => exact isUsable_safe hne hs

theorem isUsable_field (s : String) : IsUsable (field s) ∧ field s ∉ reservedFields := by
  have hsafe : IsUsable (safe (if snake s = "" then "_" else snake s)) :=
    isUsable_safe_or_bar fun _ hc => isNameChar_of_isSnakeChar (isSnakeChar_of_mem_snake hc)
  have hbar : ∀ w ∈ reservedFields, IsUsable (w ++ "_") ∧ w ++ "_" ∉ reservedFields := by
    decide +kernel
  unfold field
  dsimp only
  generalize safe (if snake s = "" then "_" else snake s) = name at hsafe ⊢
  split
  · next hmem => exact hbar _ (List.contains_iff_mem.mp hmem)
  · next hmem => exact ⟨hsafe, fun h => hmem (List.contains_iff_mem.mpr h)⟩

theorem isUsable_className (s : String) : IsUsable (className s) := by
  unfold className
  split
  · decide +kernel
  · next hne =>
    refine isUsable_safe hne fun c hc => ?_
    unfold isNameChar
    rw [alnum_of_mem_camel hc, Bool.true_or]

theorem isUsable_enumMember (s : String) : IsUsable (enumMember s) := by
  refine isUsable_safe_or_bar fun c hc => ?_
  rw [toList_uppered_snake] at hc
  obtain ⟨d, hd, rfl⟩ := List.mem_map.mp hc
  exact isNameChar_upperAscii (isSnakeChar_of_mem hd)

/-- Whatever the text, its field, class and member of an enum have names that are identifiers in
ASCII and no keywords, and the field has a name that no class uses already. Its spelling in small
words is made of lower-case letters, digits and single bars inside; texts of this form, and no
others, are their own spelling. -/
theorem names_usable (s : String) :
    (IsUsable (field s) ∧ field s ∉ reservedFields) ∧ IsUsable (className s) ∧
      IsUsable (enumMember s) ∧ IsSnake (snake s).toList ∧ snake (snake s) = snake s ∧
      (snake s = s ↔ IsSnake s.toList) :=
  ⟨isUsable_field s, isUsable_className s, isUsable_enumMember s, isSnake_snake s,
    snake_eq_self_iff.mpr (isSnake_snake s), snake_eq_self_iff⟩

end Wireform.Name
