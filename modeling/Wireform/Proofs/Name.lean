import Wireform.Name
import Wireform.Proofs.Text.Case
import Wireform.Proofs.Text.Pieces
import Wireform.Proofs.Text.Trim

/-
  Wireform names: which identifiers agree. The words of a name have no bars, and what is added to
  step aside are bars at its ends, so that an identifier without its outer bars is the plain
  spelling. Two identifiers agree exactly when the spellings do.
-/

namespace Wireform.Name

/-! ## Outer bars -/

/-- A name without the bars at its ends. -/
def bare (s : String) : String := String.ofList (Text.trim (· = '_') s.toList)

/-- Neither end of a text is a bar. -/
def NoOuterBars (s : List Char) : Prop := s.head? ≠ some '_' ∧ s.getLast? ≠ some '_'

theorem trim_of_noOuterBars {s : List Char} (h : NoOuterBars s) : Text.trim (· = '_') s = s := by
  cases s with
  | nil => rfl
  | cons c r =>
    have hhead : c ≠ '_' := fun hc => h.1 (congrArg some hc)
    have hd := List.getLast?_eq_some_getLast (List.cons_ne_nil c r)
    have hlast : (c :: r).getLast (List.cons_ne_nil c r) ≠ '_' := fun he => h.2 (he ▸ hd)
    unfold Text.trim
    rw [List.dropWhile_cons_of_neg (by simpa using hhead)]
    exact Text.trimEnd_of_getLast? hd (by simpa using hlast)

theorem bare_of_noOuterBars {s : String} (h : NoOuterBars s.toList) : bare s = s := by
  unfold bare
  rw [trim_of_noOuterBars h, String.ofList_toList]

theorem bare_append_bar (s : String) : bare (s ++ "_") = bare s := by
  unfold bare
  rw [String.toList_append]
  have hbar : ("_" : String).toList = ['_'] := rfl
  rw [hbar]
  congr 1
  unfold Text.trim
  rw [List.dropWhile_append]
  split
  · next h =>
    rw [List.isEmpty_iff.mp h]
    rfl
  · exact Text.trimEnd_append _ rfl

theorem bare_bar_append (s : String) : bare ("_" ++ s) = bare s := by
  unfold bare
  rw [String.toList_append]
  rfl

theorem bare_safe (s : String) : bare (safe s) = bare s := by
  unfold safe
  split
  · exact bare_append_bar s
  · split
    · exact bare_bar_append s
    · rfl

/-! ## Parts -/

theorem alnum_of_mem_parts {s w : List Char} (hw : w ∈ parts s) {c : Char} (hc : c ∈ w) :
    Text.isAlnumAscii c = true := by
  have hgo : ∀ (word : List Char) (cut : Bool), (∀ c ∈ word, Text.isAlnumAscii c = true) →
      w ∈ parts.go word cut s → Text.isAlnumAscii c = true := by
    clear hw
    induction s with
    | nil =>
      intro word cut hword hw
      obtain rfl := List.mem_singleton.mp hw
      exact hword c (List.mem_reverse.mp hc)
    | cons x s ih =>
      intro word cut hword hw
      rw [parts.go] at hw
      split at hw
      · next hx => exact ih (x :: word) false (List.forall_mem_cons.mpr ⟨hx, hword⟩) hw
      · split at hw
        · exact ih word true hword hw
        · rcases List.mem_cons.mp hw with rfl | hw
          · exact hword c (List.mem_reverse.mp hc)
          · exact ih [] true (fun _ h => absurd h List.not_mem_nil) hw
  exact hgo [] false (fun _ h => absurd h List.not_mem_nil) hw

theorem ne_bar_of_alnum {c : Char} (hc : Text.isAlnumAscii c = true) : c ≠ '_' := by
  rintro rfl
  exact absurd hc (by decide)

theorem noOuterBars_of_alnum {s : List Char} (hs : ∀ c ∈ s, Text.isAlnumAscii c = true) :
    NoOuterBars s :=
  ⟨fun h => ne_bar_of_alnum (hs _ (List.mem_of_mem_head? h)) rfl,
    fun h => ne_bar_of_alnum (hs _ (List.mem_of_getLast? h)) rfl⟩

/-! ## Classes -/

theorem alnum_upperAscii {c : Char} (hc : Text.isAlnumAscii c = true) :
    Text.isAlnumAscii (Text.upperAscii c) = true :=
  Text.forall_ascii (p := fun c => Text.isAlnumAscii c = true →
    Text.isAlnumAscii (Text.upperAscii c) = true) (by decide +kernel)
    (Text.isAscii_of_isAlnumAscii hc) hc

theorem alnum_of_mem_camelChars {s : List Char} {c : Char} (hc : c ∈ camelChars s) :
    Text.isAlnumAscii c = true := by
  obtain ⟨w, hw, hc⟩ := List.mem_flatMap.mp hc
  have hword : ∀ d ∈ w, Text.isAlnumAscii d = true := fun d hd => alnum_of_mem_parts hw hd
  rcases List.mem_append.mp hc with hc | hc
  · have hfirst : ∀ d ∈ w.take 1, Text.isAlnumAscii d = true := fun d hd =>
      hword d (List.mem_of_mem_take hd)
    rw [Text.upper_of_isAscii fun d hd => Text.isAscii_of_isAlnumAscii (hfirst d hd)] at hc
    obtain ⟨d, hd, rfl⟩ := List.mem_map.mp hc
    exact alnum_upperAscii (hfirst d hd)
  · exact hword c (List.mem_of_mem_drop hc)

theorem alnum_of_mem_camel {s : String} {c : Char} (hc : c ∈ (camel s).toList) :
    Text.isAlnumAscii c = true := by
  unfold camel at hc
  rw [String.toList_ofList] at hc
  exact alnum_of_mem_camelChars hc

theorem bare_camel (s : String) : bare (camel s) = camel s :=
  bare_of_noOuterBars (noOuterBars_of_alnum fun _ => alnum_of_mem_camel)

theorem bare_className (s : String) : bare (className s) = camel s := by
  unfold className
  split
  · next h =>
    rw [h]
    rfl
  · rw [bare_safe, bare_camel]

/-- Two classes have one name exactly when the shapes' names have one camel-case spelling. -/
theorem className_inj {a b : String} : className a = className b ↔ camel a = camel b := by
  constructor
  · intro h
    rw [← bare_className, ← bare_className, h]
  · intro h
    unfold className
    rw [h]

/-! ## Words in lower case -/

/-- The words that `snake` puts together. -/
def words (s : List Char) : List (List Char) :=
  (parts (breakWords (breakAcronyms s))).filter (· ≠ [])

theorem ne_nil_of_mem_words {s w : List Char} (hw : w ∈ words s) : w ≠ [] :=
  of_decide_eq_true (List.mem_filter.mp hw).2

theorem alnum_of_mem_words {s w : List Char} (hw : w ∈ words s) {c : Char} (hc : c ∈ w) :
    Text.isAlnumAscii c = true :=
  alnum_of_mem_parts (List.mem_filter.mp hw).1 hc

/-- Lower-case letters, digits and bars. -/
def isSnakeChar (c : Char) : Bool := Text.isLowerAscii c || Text.isDigitAscii c || c = '_'

theorem isSnakeChar_lowerAscii {c : Char} (hc : Text.isAlnumAscii c = true ∨ c = '_') :
    isSnakeChar (Text.lowerAscii c) = true ∧ (c ≠ '_' → Text.lowerAscii c ≠ '_') := by
  have hascii : Text.isAscii c = true := by
    rcases hc with hc | rfl
    · exact Text.isAscii_of_isAlnumAscii hc
    · rfl
  exact Text.forall_ascii (p := fun c => Text.isAlnumAscii c = true ∨ c = '_' →
    isSnakeChar (Text.lowerAscii c) = true ∧ (c ≠ '_' → Text.lowerAscii c ≠ '_'))
    (by decide +kernel) hascii hc

theorem alnum_or_bar_of_mem_join {s : List Char} {c : Char} (hc : c ∈ Text.join '_' (words s)) :
    Text.isAlnumAscii c = true ∨ c = '_' := by
  rcases Text.mem_join hc with rfl | ⟨w, hw, hc⟩
  · exact Or.inr rfl
  · exact Or.inl (alnum_of_mem_words hw hc)

theorem snakeChars_eq (s : List Char) :
    snakeChars s = (Text.join '_' (words s)).map Text.lowerAscii := by
  refine Text.lower_of_isAscii fun c hc => ?_
  rcases alnum_or_bar_of_mem_join hc with hc | rfl
  · exact Text.isAscii_of_isAlnumAscii hc
  · rfl

theorem isSnakeChar_of_mem {s : List Char} {c : Char} (hc : c ∈ snakeChars s) :
    isSnakeChar c = true := by
  rw [snakeChars_eq] at hc
  obtain ⟨d, hd, rfl⟩ := List.mem_map.mp hc
  exact (isSnakeChar_lowerAscii (alnum_or_bar_of_mem_join hd)).1

theorem noOuterBars_snakeChars (s : List Char) : NoOuterBars (snakeChars s) := by
  rw [snakeChars_eq]
  -- an end of the spelling is that of a letter or digit of a word
  have hend : ∀ {d : Option Char}, (∀ c, d = some c → ∃ w ∈ words s, c ∈ w) →
      d.map Text.lowerAscii ≠ some '_' := by
    intro d hd h
    obtain ⟨c, hc, hlower⟩ := Option.map_eq_some_iff.mp h
    obtain ⟨w, hw, hcw⟩ := hd c hc
    have halnum := alnum_of_mem_words hw hcw
    exact (isSnakeChar_lowerAscii (Or.inl halnum)).2 (ne_bar_of_alnum halnum) hlower
  constructor
  · rw [List.head?_map]
    exact hend fun c hc => Text.ends_join (fun _ => ne_nil_of_mem_words) (Or.inl hc)
  · rw [List.getLast?_map]
    exact hend fun c hc => Text.ends_join (fun _ => ne_nil_of_mem_words) (Or.inr hc)

/-! ## Fields -/

theorem toList_snake (s : String) : (snake s).toList = snakeChars s.toList := String.toList_ofList

theorem isSnakeChar_of_mem_snake {s : String} {c : Char} (hc : c ∈ (snake s).toList) :
    isSnakeChar c = true := isSnakeChar_of_mem (toList_snake s ▸ hc)

theorem bare_snake (s : String) : bare (snake s) = snake s := by
  refine bare_of_noOuterBars ?_
  rw [toList_snake]
  exact noOuterBars_snakeChars s.toList

theorem bare_field (s : String) : bare (field s) = snake s := by
  have hplain : bare (safe (if snake s = "" then "_" else snake s)) = snake s := by
    rw [bare_safe]
    split
    · next h =>
      rw [h]
      rfl
    · exact bare_snake s
  unfold field
  dsimp only
  generalize safe (if snake s = "" then "_" else snake s) = name at hplain ⊢
  rw [← hplain]
  split
  · exact bare_append_bar name
  · rfl

/-- Two fields have one name exactly when the members' names have one spelling in small words. -/
theorem field_inj {a b : String} : field a = field b ↔ snake a = snake b := by
  constructor
  · intro h
    rw [← bare_field, ← bare_field, h]
  · intro h
    unfold field
    rw [h]

/-! ## Members of enums -/

theorem isAscii_of_isSnakeChar {c : Char} (hc : isSnakeChar c = true) : Text.isAscii c = true := by
  unfold isSnakeChar at hc
  rw [Bool.or_eq_true, decide_eq_true_eq] at hc
  rcases hc with hc | rfl
  · refine Text.isAscii_of_isAlnumAscii ?_
    rcases (Bool.or_eq_true _ _).mp hc with hc | hc <;> simp [Text.isAlnumAscii, hc]
  · rfl

theorem upperAscii_snakeChar {c : Char} (hc : isSnakeChar c = true) :
    Text.isAscii (Text.upperAscii c) = true ∧ Text.lowerAscii (Text.upperAscii c) = c ∧
      (c ≠ '_' → Text.upperAscii c ≠ '_') :=
  Text.forall_ascii (p := fun c => isSnakeChar c = true →
    Text.isAscii (Text.upperAscii c) = true ∧ Text.lowerAscii (Text.upperAscii c) = c ∧
      (c ≠ '_' → Text.upperAscii c ≠ '_')) (by decide +kernel) (isAscii_of_isSnakeChar hc) hc

theorem toList_uppered_snake (s : String) :
    (Text.uppered (snake s)).toList = (snakeChars s.toList).map Text.upperAscii := by
  unfold Text.uppered snake
  rw [String.toList_ofList, String.toList_ofList]
  exact Text.upper_of_isAscii fun c hc => isAscii_of_isSnakeChar (isSnakeChar_of_mem hc)

/-- Upper case loses nothing of a spelling in small words. -/
theorem lowered_uppered_snake (s : String) : Text.lowered (Text.uppered (snake s)) = snake s := by
  have hchars : ∀ c ∈ snakeChars s.toList, isSnakeChar c = true := fun _ => isSnakeChar_of_mem
  unfold Text.lowered
  rw [toList_uppered_snake, Text.lower_of_isAscii, List.map_map]
  · refine congrArg String.ofList ((List.map_congr_left fun c hc => ?_).trans (List.map_id _))
    exact (upperAscii_snakeChar (hchars c hc)).2.1
  · intro c hc
    obtain ⟨d, hd, rfl⟩ := List.mem_map.mp hc
    exact (upperAscii_snakeChar (hchars d hd)).1

theorem bare_uppered_snake (s : String) :
    bare (Text.uppered (snake s)) = Text.uppered (snake s) := by
  refine bare_of_noOuterBars ?_
  rw [toList_uppered_snake]
  obtain ⟨hhead, hlast⟩ := noOuterBars_snakeChars s.toList
  have hend : ∀ {d : Option Char}, d ≠ some '_' → (∀ c, d = some c → c ∈ snakeChars s.toList) →
      d.map Text.upperAscii ≠ some '_' := by
    intro d hne hd h
    obtain ⟨c, rfl, hupper⟩ := Option.map_eq_some_iff.mp h
    exact (upperAscii_snakeChar (isSnakeChar_of_mem (hd c rfl))).2.2 (fun hc => hne (hc ▸ rfl)) hupper
  constructor
  · rw [List.head?_map]
    exact hend hhead fun _ => List.mem_of_mem_head?
  · rw [List.getLast?_map]
    exact hend hlast fun _ => List.mem_of_getLast?

theorem bare_enumMember (s : String) : bare (enumMember s) = Text.uppered (snake s) := by
  unfold enumMember
  dsimp only
  rw [bare_safe]
  split
  · next h =>
    rw [h]
    rfl
  · exact bare_uppered_snake s

/-- Two members of an enum have one name exactly when their own names have one spelling in small
words. -/
theorem enumMember_inj {a b : String} : enumMember a = enumMember b ↔ snake a = snake b := by
  constructor
  · intro h
    rw [← lowered_uppered_snake a, ← lowered_uppered_snake b, ← bare_enumMember, ← bare_enumMember,
      h]
  · intro h
    unfold enumMember
    rw [h]

end Wireform.Name
