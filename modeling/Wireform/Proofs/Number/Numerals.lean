import Mathlib.Data.Bool.AllAny
import Wireform.Number.Real
import Wireform.Proofs.Text.Digits

/-
  Wireform numerals: the text of a number's digits, point and exponent is read as these parts again.
-/

namespace Wireform

namespace Real

/-- The digits of both sides, of which there is at least one in front of the point. -/
structure Parts.IsNumeral (p : Parts) : Prop where
  whole_ne_nil : p.whole ≠ []
  whole_digits : ∀ c ∈ p.whole, Text.isDigitAscii c = true
  fraction_digits : ∀ c ∈ p.fraction, Text.isDigitAscii c = true

/-- An exponent with its sign; zero is left out. -/
def exponentChars (k : Int) : List Char :=
  if k = 0 then [] else 'E' :: (if k < 0 then '-' else '+') :: Text.ofNat k.natAbs

/-- The text of the parts; the point is left out if no digit stands behind it. -/
def Parts.chars (p : Parts) : List Char :=
  p.whole ++ ((if p.fraction = [] then [] else '.' :: p.fraction) ++ exponentChars p.exponent)

theorem exponentChars_cases (k : Int) : exponentChars k = [] ∨ ∃ r, exponentChars k = 'E' :: r := by
  unfold exponentChars
  split
  · exact Or.inl rfl
  · exact Or.inr ⟨_, rfl⟩

theorem readExponent_exponentChars (k : Int) : readExponent (exponentChars k) = some k := by
  have hdigits : (Text.ofNat k.natAbs).all Text.isDigitAscii = true :=
    List.all_eq_true.mpr fun c hc => Text.isDigitAscii_of_mem hc
  have hsome : (Text.ofNat k.natAbs).isEmpty = false :=
    List.isEmpty_eq_false_iff.mpr (Text.ofNat_ne_nil _)
  unfold exponentChars
  split
  · next hzero =>
    rw [hzero]
    rfl
  · split
    · simp only [readExponent, Whole.takeSign, hdigits, hsome, Text.digitsValue_ofNat]
      show some (-(k.natAbs : Int)) = some k
      exact congrArg some (by omega)
    · simp only [readExponent, Whole.takeSign, hdigits, hsome, Text.digitsValue_ofNat]
      show some (k.natAbs : Int) = some k
      exact congrArg some (by omega)

theorem takeWhile_digits {ds r : List Char} (hds : ∀ c ∈ ds, Text.isDigitAscii c = true)
    (hr : ∀ c, r.head? = some c → Text.isDigitAscii c = false) :
    (ds ++ r).takeWhile Text.isDigitAscii = ds ∧ (ds ++ r).dropWhile Text.isDigitAscii = r := by
  rw [List.takeWhile_append_of_pos hds, List.dropWhile_append_of_pos hds]
  cases r with
  | nil => exact ⟨List.append_nil ds, rfl⟩
  | cons c r =>
    have hc : ¬ Text.isDigitAscii c = true := by
      rw [hr c rfl]
      exact Bool.false_ne_true
    rw [List.takeWhile_cons_of_neg hc, List.dropWhile_cons_of_neg hc, List.append_nil]
    exact ⟨rfl, rfl⟩

theorem head?_exponentChars (k : Int) (c : Char) (hc : (exponentChars k).head? = some c) :
    Text.isDigitAscii c = false := by
  rcases exponentChars_cases k with h | ⟨r, h⟩
  · rw [h] at hc
    cases hc
  · rw [h] at hc
    cases hc
    rfl

/-- The text of parts is read as those parts. -/
theorem readParts_chars {p : Parts} (hp : p.IsNumeral) : readParts p.chars = some p := by
  obtain ⟨whole, fraction, exponent⟩ := p
  obtain ⟨hne, hwhole, hfraction⟩ := hp
  have hsome : whole.isEmpty = false := List.isEmpty_eq_false_iff.mpr hne
  unfold Parts.chars
  dsimp only at *
  by_cases hnil : fraction = []
  · subst hnil
    obtain ⟨htake, hdrop⟩ := takeWhile_digits hwhole (head?_exponentChars exponent)
    have hread := readExponent_exponentChars exponent
    rw [if_pos rfl, List.nil_append]
    unfold readParts
    simp only [htake, hdrop, hsome]
    rcases exponentChars_cases exponent with h | ⟨r, h⟩
    · rw [h] at hread ⊢
      simp [hread]
    · rw [h] at hread ⊢
      simp [hread]
  · obtain ⟨htake, hdrop⟩ := takeWhile_digits (r := '.' :: (fraction ++ exponentChars exponent))
      hwhole (fun c hc => by cases hc; rfl)
    obtain ⟨htake', hdrop'⟩ := takeWhile_digits hfraction (head?_exponentChars exponent)
    rw [if_neg hnil, List.cons_append]
    unfold readParts
    simp only [htake, hdrop, htake', hdrop', hsome, readExponent_exponentChars]
    rfl

theorem mem_chars {p : Parts} (hp : p.IsNumeral) {c : Char} (hc : c ∈ p.chars) :
    Text.isDigitAscii c = true ∨ c ∈ ['.', 'E', '+', '-'] := by
  unfold Parts.chars exponentChars at hc
  rcases List.mem_append.mp hc with hc | hc
  · exact Or.inl (hp.whole_digits c hc)
  · rcases List.mem_append.mp hc with hc | hc
    · split at hc
      · cases hc
      · rcases List.mem_cons.mp hc with rfl | hc
        · exact Or.inr (by decide)
        · exact Or.inl (hp.fraction_digits c hc)
    · split at hc
      · cases hc
      · rcases List.mem_cons.mp hc with rfl | hc
        · exact Or.inr (by decide)
        · rcases List.mem_cons.mp hc with rfl | hc
          · exact Or.inr (by split <;> decide)
          · exact Or.inl (Text.isDigitAscii_of_mem hc)

/-- A numeral starts with a digit. -/
theorem exists_digit_chars {p : Parts} (hp : p.IsNumeral) :
    ∃ c r, p.chars = c :: r ∧ Text.isDigitAscii c = true := by
  obtain ⟨c, r, hwhole⟩ := List.exists_cons_of_ne_nil hp.whole_ne_nil
  refine ⟨c, r ++ ((if p.fraction = [] then [] else '.' :: p.fraction) ++
    exponentChars p.exponent), ?_, hp.whole_digits c (hwhole ▸ List.mem_cons_self)⟩
  unfold Parts.chars
  rw [hwhole, List.cons_append]

/-- Digits have no case. -/
theorem asciiLower_of_digits {ds : List Char} (h : ∀ c ∈ ds, Text.isDigitAscii c = true) :
    asciiLower ds = ds := by
  refine (List.map_congr_left fun c hc => ?_).trans (List.map_id _)
  rw [(Text.digit_char (h c hc)).2.1]
  rfl

end Real

end Wireform
