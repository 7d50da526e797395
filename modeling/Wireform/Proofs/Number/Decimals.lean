import Mathlib.Data.Bool.AllAny
import Wireform.Number.Decimal
import Wireform.Proofs.Number.Numerals
import Wireform.Proofs.Text.Trim

/-
  Wireform decimals: a decimal is read back from its text with its sign, its digits and its exponent.
  Wherever the point stands, the digits on both sides of it are those of the coefficient, and the
  exponent that is written makes up for the digits behind it (`exists_parts`).
-/

namespace Wireform

namespace Decimal

/-- The decimals that there are: the digits of a finite one lie within the range of places. -/
def Representable : Decimal → Prop
  | finite _ c e => inRange c e = true
  | infinite _ | nan _ _ _ => True

instance : (d : Decimal) → Decidable d.Representable
  | finite _ c e => inferInstanceAs (Decidable (inRange c e = true))
  | infinite _ => inferInstanceAs (Decidable True)
  | nan _ _ _ => inferInstanceAs (Decidable True)

/-! ## Finite decimals -/

/-- The parts of a numeral with `point` of the digits in front of its point. -/
def partsAt (ds : List Char) (point exponent : Int) : Real.Parts :=
  if point ≤ 0 then ⟨['0'], List.replicate (-point).toNat '0' ++ ds, exponent⟩
  else ⟨ds.take point.toNat, ds.drop point.toNat, exponent⟩

section

variable {ds : List Char} {point : Int}

theorem isNumeral_partsAt (hne : ds ≠ []) (hdigits : ∀ x ∈ ds, Text.isDigitAscii x = true)
    (point k : Int) : (partsAt ds point k).IsNumeral := by
  unfold partsAt
  split
  · refine ⟨List.cons_ne_nil _ _, List.forall_mem_singleton.mpr rfl, fun x hx => ?_⟩
    rcases List.mem_append.mp hx with hx | hx
    · rw [List.eq_of_mem_replicate hx]
      rfl
    · exact hdigits x hx
  · refine ⟨?_, fun x hx => hdigits x (List.mem_of_mem_take hx),
      fun x hx => hdigits x (List.mem_of_mem_drop hx)⟩
    rw [ne_eq, List.take_eq_nil_iff]
    rintro (h | h)
    · omega
    · exact hne h

theorem coefficient_partsAt (ds : List Char) (point k : Int) :
    (partsAt ds point k).coefficient = Text.digitsValue ds := by
  unfold partsAt Real.Parts.coefficient
  split
  · exact Text.digitsValue_zeros_append ((-point).toNat + 1) ds
  · dsimp only
    rw [List.take_append_drop]

theorem scale_partsAt (hpoint : point ≤ ds.length) (k : Int) :
    (partsAt ds point k).scale = k + point - ds.length := by
  unfold partsAt Real.Parts.scale
  split
  · dsimp only
    rw [List.length_append, List.length_replicate]
    omega
  · dsimp only
    rw [List.length_drop]
    omega

/-- The point is written unless it stands behind all digits. -/
theorem chars_partsAt (hne : ds ≠ []) (hpoint : point ≤ ds.length) (k : Int) :
    (partsAt ds point k).chars =
      (if point ≤ 0 then '0' :: '.' :: List.replicate (-point).toNat '0' ++ ds
        else if ds.length ≤ point then ds ++ List.replicate (point.toNat - ds.length) '0'
        else ds.take point.toNat ++ '.' :: ds.drop point.toNat) ++ Real.exponentChars k := by
  unfold partsAt Real.Parts.chars
  split
  · dsimp only
    rw [if_neg (List.append_ne_nil_of_right_ne_nil _ hne)]
    simp
  · dsimp only
    by_cases hend : (ds.length : Int) ≤ point
    · have hzero : point.toNat - ds.length = 0 := by omega
      rw [if_pos hend, hzero, List.replicate_zero, List.append_nil,
        List.drop_of_length_le (by omega), List.take_of_length_le (by omega), if_pos rfl,
        List.nil_append]
    · have hdrop : ds.drop point.toNat ≠ [] := by
        rw [ne_eq, List.drop_eq_nil_iff]
        omega
      rw [if_neg hend, if_neg hdrop]
      simp

end

/-- The exponent that is written makes up for the place of the point. -/
theorem append_exponentChars (number : List Char) (left point : Int) :
    (if left = point then number
      else number ++ 'E' :: (if left < point then '-' else '+') ::
        Text.ofNat (left - point).natAbs) = number ++ Real.exponentChars (left - point) := by
  unfold Real.exponentChars
  by_cases h : left = point
  · rw [if_pos h, if_pos (by omega), List.append_nil]
  · have hsome : ¬ left - point = 0 := by omega
    have hsign : (left - point < 0) ↔ left < point := by omega
    rw [if_neg h, if_neg hsome]
    simp only [hsign]

/-- The text of a coefficient and an exponent has parts that stand for both. -/
theorem exists_parts (c : Nat) (e : Int) : ∃ p : Real.Parts, p.IsNumeral ∧ body c e = p.chars ∧
    p.coefficient = c ∧ p.scale = e := by
  have hne := Text.ofNat_ne_nil c
  have hlength : 0 < (Text.ofNat c).length := List.length_pos_iff.mpr hne
  unfold body
  dsimp only
  generalize hleft : e + ((Text.ofNat c).length : Int) = left
  generalize hpoint : (if (decide (e ≤ 0) && decide (-6 < left)) = true then left else 1) = point
  have hinside : point ≤ (Text.ofNat c).length := by
    subst hpoint
    split
    · next h =>
      rw [Bool.and_eq_true, decide_eq_true_eq] at h
      omega
    · omega
  refine ⟨partsAt (Text.ofNat c) point (left - point),
    isNumeral_partsAt hne (fun _ => Text.isDigitAscii_of_mem) _ _, ?_, ?_, ?_⟩
  · rw [append_exponentChars, chars_partsAt hne hinside]
  · rw [coefficient_partsAt, Text.digitsValue_ofNat]
  · rw [scale_partsAt hinside]
    omega

/-! ## Reading -/

/-- The characters of the texts of decimals. -/
def textChars : List Char := "0123456789.+-EINafinsty".toList

theorem text_char : ∀ c ∈ textChars, Text.isAscii c = true ∧ Text.isBlank c = false ∧ c ≠ '_' :=
  List.all_iff_forall_prop.mp (by decide)

theorem mem_textChars_of_digit {c : Char} (h : Text.isDigitAscii c = true) : c ∈ textChars :=
  List.mem_append_left ".+-EINafinsty".toList (Text.mem_digits h)

theorem mem_textChars_of_sign {negative : Bool} {c : Char}
    (h : c ∈ if negative then ['-'] else []) : c ∈ textChars := by
  cases negative with
  | true => exact List.mem_singleton.mp h ▸ (by decide)
  | false => cases h

theorem mem_textChars {d : Decimal} {c : Char} (h : c ∈ d.text) : c ∈ textChars := by
  cases d with
  | finite negative m e =>
    rcases List.mem_append.mp h with h | h
    · exact mem_textChars_of_sign h
    · obtain ⟨p, hp, hbody, -, -⟩ := exists_parts m e
      rw [hbody] at h
      rcases Real.mem_chars hp h with h | h
      · exact mem_textChars_of_digit h
      · have hall : ∀ c ∈ ['.', 'E', '+', '-'], c ∈ textChars :=
          List.all_iff_forall_prop.mp (by decide)
        exact hall c h
  | infinite negative =>
    have hall : ∀ negative, ((infinite negative).text.all fun c => c ∈ textChars) = true := by
      decide
    exact List.all_iff_forall_prop.mp (hall negative) c h
  | nan negative signaling payload =>
    have hname : ∀ signaling : Bool,
        ((if signaling then "sNaN" else "NaN").toList.all fun c => c ∈ textChars) = true := by
      decide
    rcases List.mem_append.mp h with h | h
    · rcases List.mem_append.mp h with h | h
      · exact mem_textChars_of_sign h
      · exact List.all_iff_forall_prop.mp (hname signaling) c h
    · split at h
      · cases h
      · exact mem_textChars_of_digit (Text.isDigitAscii_of_mem h)

theorem text_ne_nil (d : Decimal) : d.text ≠ [] := by
  cases d with
  | finite negative m e =>
    obtain ⟨p, hp, hbody, -, -⟩ := exists_parts m e
    obtain ⟨c, r, hchars, -⟩ := Real.exists_digit_chars hp
    unfold text
    dsimp only
    rw [hbody, hchars]
    exact List.append_ne_nil_of_right_ne_nil _ (List.cons_ne_nil c r)
  | infinite negative => cases negative <;> exact List.cons_ne_nil _ _
  | nan negative signaling payload =>
    cases negative <;> cases signaling <;> exact List.cons_ne_nil _ _

/-- Nothing in the text of a decimal is passed over. -/
theorem plain_text (d : Decimal) :
    Text.plainDigits ((Text.trim Text.isBlank d.text).filter (· ≠ '_')) = d.text := by
  have hbars : d.text.filter (· ≠ '_') = d.text :=
    List.filter_eq_self.mpr fun c hc => decide_eq_true (text_char c (mem_textChars hc)).2.2
  rw [Text.trim_of_forall_not fun c hc => (text_char c (mem_textChars hc)).2.1, hbars,
    Text.plainDigits_of_isAscii fun c hc => (text_char c (mem_textChars hc)).1]

theorem readNan_of_digit {c : Char} (hc : Text.isDigitAscii c = true) (negative : Bool)
    (r : List Char) : readNan negative (c :: r) = none := by
  have hdigit := Text.mem_digits hc
  simp only [List.mem_cons, List.not_mem_nil, or_false] at hdigit
  obtain rfl | rfl | rfl | rfl | rfl | rfl | rfl | rfl | rfl | rfl := hdigit
  all_goals rfl

theorem read?_finite {negative : Bool} {c : Nat} {e : Int} (h : inRange c e = true) :
    read? (finite negative c e).text = some (finite negative c e) := by
  obtain ⟨p, hp, hbody, hcoefficient, hscale⟩ := exists_parts c e
  obtain ⟨x, r, hchars, hx⟩ := Real.exists_digit_chars hp
  obtain ⟨-, hcase, -, hminus, hplus⟩ := Text.digit_char hx
  have htext : (finite negative c e).text = (if negative then ['-'] else []) ++ x :: r := by
    rw [← hchars, ← hbody]
    rfl
  have hsign : Whole.takeSign (finite negative c e).text = (negative, x :: r) := by
    rw [htext]
    exact Whole.takeSign_signed negative hminus hplus r
  have hlower : Real.asciiLower (x :: r) = x :: Real.asciiLower r := by
    unfold Real.asciiLower
    rw [List.map_cons, hcase]
    rfl
  have hname : ∀ {y s}, Text.isDigitAscii y = false → x :: Real.asciiLower r ≠ y :: s := by
    intro y s hy heq
    rw [← (List.cons.inj heq).1, hx] at hy
    cases hy
  have hinfinite : ¬ (decide (x :: Real.asciiLower r = "inf".toList) ||
      decide (x :: Real.asciiLower r = "infinity".toList)) = true := by
    rw [Bool.or_eq_true, decide_eq_true_eq, decide_eq_true_eq]
    exact not_or.mpr ⟨hname (y := 'i') rfl, hname (y := 'i') rfl⟩
  unfold read?
  rw [plain_text, hsign]
  dsimp only
  rw [hlower, if_neg hinfinite, readNan_of_digit hx]
  dsimp only
  rw [← hchars, Real.readParts_chars hp]
  show (if inRange p.coefficient p.scale then _ else _) = _
  rw [hcoefficient, hscale, if_pos h]

/-- The name of a not-a-number and its payload are read in lower case. -/
theorem readNan_name (negative signaling : Bool) {ds : List Char}
    (hds : ∀ c ∈ ds, Text.isDigitAscii c = true) :
    readNan negative ((if signaling then "snan" else "nan").toList ++ ds) =
      some (nan negative signaling (Text.digitsValue ds)) := by
  have hall : ds.all Text.isDigitAscii = true := List.all_eq_true.mpr hds
  cases signaling with
  | true =>
    show (if (ds.all Text.isDigitAscii) = true then _ else _) = _
    rw [if_pos hall]
    rfl
  | false =>
    show (if (ds.all Text.isDigitAscii) = true then _ else _) = _
    rw [if_pos hall]
    rfl

theorem read?_nan (negative signaling : Bool) (payload : Nat) :
    read? (nan negative signaling payload).text = some (nan negative signaling payload) := by
  obtain ⟨ds, hds, hvalue, htail⟩ : ∃ ds, (∀ c ∈ ds, Text.isDigitAscii c = true) ∧
      Text.digitsValue ds = payload ∧ (if payload = 0 then [] else Text.ofNat payload) = ds := by
    split
    · next hzero => exact ⟨[], nofun, hzero.symm, rfl⟩
    · exact ⟨_, fun _ => Text.isDigitAscii_of_mem, Text.digitsValue_ofNat payload, rfl⟩
  have htext : (nan negative signaling payload).text =
      (if negative then ['-'] else []) ++ ((if signaling then "sNaN" else "NaN").toList ++ ds) := by
    rw [← List.append_assoc, ← htail]
    rfl
  have hsign : Whole.takeSign (nan negative signaling payload).text =
      (negative, (if signaling then "sNaN" else "NaN").toList ++ ds) := by
    rw [htext]
    cases signaling with
    | true => exact Whole.takeSign_signed negative (c := 's') (by decide) (by decide) _
    | false => exact Whole.takeSign_signed negative (c := 'N') (by decide) (by decide) _
  have hlower : Real.asciiLower ((if signaling then "sNaN" else "NaN").toList ++ ds) =
      (if signaling then "snan" else "nan").toList ++ ds := by
    have hname : Real.asciiLower (if signaling then "sNaN" else "NaN").toList =
        (if signaling then "snan" else "nan").toList := by
      cases signaling <;> rfl
    rw [← hname]
    exact List.map_append.trans (congrArg (_ ++ ·) (Real.asciiLower_of_digits hds))
  have hinfinite : ¬ (decide ((if signaling then "snan" else "nan").toList ++ ds = "inf".toList) ||
      decide ((if signaling then "snan" else "nan").toList ++ ds = "infinity".toList)) = true := by
    rw [Bool.or_eq_true, decide_eq_true_eq, decide_eq_true_eq]
    cases signaling <;> exact not_or.mpr ⟨nofun, nofun⟩
  unfold read?
  rw [plain_text, hsign]
  dsimp only
  rw [hlower, if_neg hinfinite, readNan_name negative signaling hds, hvalue]

/-- A decimal is read back from its text with all its parts. -/
theorem read?_text {d : Decimal} (h : d.Representable) : read? d.text = some d := by
  cases d with
  | finite negative c e => exact read?_finite h
  | infinite negative => cases negative <;> rfl
  | nan negative signaling payload => exact read?_nan negative signaling payload

end Decimal

end Wireform
