import Wireform.Proofs.Text.Digits
import Wireform.Proofs.Text.UpperCase
import Wireform.Proofs.Time.Layouts
import Wireform.Time.Timestamp

/-
  Wireform date-times: how a text is spelled for the reader. A `Z` becomes an offset of zero wherever
  it stands, and upper case leaves digits, dashes and signs as they are and makes none.
-/

namespace Wireform.Timestamp

open IsoReader (isSign DateChar)

variable {c x : Char} {s : List Char}

/-! ## Spelling -/

def isZulu (c : Char) : Bool := c = 'Z' || c = 'z'

/-- Whether an offset begins here. -/
def opensZone (c : Char) : Bool := isSign c || isZulu c

/-- A character of a date-time as it is spelled for the reader. -/
def spellChar (c : Char) : List Char := if isZulu c then "+00:00".toList else Text.upperChar c

theorem spellChar_of_isZulu (h : isZulu c = true) : spellChar c = "+00:00".toList := if_pos h

theorem isAscii_of_isZulu (h : isZulu c = true) : Text.isAscii c = true := by
  unfold isZulu at h
  rw [Bool.or_eq_true, decide_eq_true_eq, decide_eq_true_eq] at h
  rcases h with rfl | rfl <;> rfl

theorem isZulu_of_outside (hc : Text.isAscii c = false) : isZulu c = false := by
  rw [← Bool.not_eq_true]
  intro h
  rw [isAscii_of_isZulu h] at hc
  cases hc

theorem spellChar_outside (hc : Text.isAscii c = false) : spellChar c = Text.upperChar c := by
  unfold spellChar
  rw [isZulu_of_outside hc, if_neg Bool.false_ne_true]

theorem flatMap_of_no_zulu (hs : ∀ c ∈ s, c ≠ 'Z') :
    (s.flatMap fun c => if c = 'Z' then "+00:00".toList else [c]) = s := by
  induction s with
  | nil => rfl
  | cons c s ih =>
    obtain ⟨hc, hs⟩ := List.forall_mem_cons.mp hs
    rw [List.flatMap_cons, if_neg hc, ih hs]
    rfl

theorem spellOffset_eq (s : List Char) : spellOffset s = s.flatMap spellChar := by
  have hchar : (fun c => (Text.upperChar c).flatMap fun d =>
      if d = 'Z' then "+00:00".toList else [d]) = spellChar := by
    funext c
    cases hc : Text.isAscii c with
    | true =>
      exact Text.forall_ascii (p := fun c => (Text.upperChar c).flatMap (fun d =>
        if d = 'Z' then "+00:00".toList else [d]) = spellChar c) (by decide +kernel) hc
    | false =>
      rw [spellChar_outside hc]
      refine flatMap_of_no_zulu fun d hd => ?_
      rintro rfl
      exact (Text.mem_upperChar_outside hc hd rfl).2 rfl
  unfold spellOffset Text.upper
  rw [List.flatMap_assoc, hchar]

theorem spellOffset_cons (c : Char) (s : List Char) :
    spellOffset (c :: s) = spellChar c ++ spellOffset s := by
  rw [spellOffset_eq, spellOffset_eq, List.flatMap_cons]

theorem spellOffset_append (s t : List Char) :
    spellOffset (s ++ t) = spellOffset s ++ spellOffset t := by
  rw [spellOffset_eq, spellOffset_eq, spellOffset_eq, List.flatMap_append]

theorem spellChar_ne_nil (c : Char) : spellChar c ≠ [] := by
  unfold spellChar
  split
  · decide
  · exact Text.upperChar_ne_nil c

theorem spellOffset_eq_nil (h : spellOffset s = []) : s = [] := by
  cases s with
  | nil => rfl
  | cons c s =>
    rw [spellOffset_cons, List.append_eq_nil_iff] at h
    exact absurd h.1 (spellChar_ne_nil c)

/-- A sign comes from a sign or from a `Z`. -/
theorem opensZone_of_mem (hx : x ∈ spellChar c) (hsign : isSign x = true) : opensZone c = true := by
  cases hc : Text.isAscii c with
  | true =>
    exact Text.forall_ascii (p := fun c => (spellChar c).any isSign = true → opensZone c = true)
      (by decide +kernel) hc (List.any_eq_true.mpr ⟨x, hx, hsign⟩)
  | false =>
    -- outside ASCII, only letters come out of upper case
    rw [spellChar_outside hc] at hx
    unfold isSign at hsign
    rw [Bool.or_eq_true, decide_eq_true_eq, decide_eq_true_eq] at hsign
    rcases hsign with rfl | rfl
    · cases (Text.mem_upperChar_outside hc hx rfl).1
    · cases (Text.mem_upperChar_outside hc hx rfl).1

theorem not_isSign_of_mem_spellOffset (hs : ∀ c ∈ s, opensZone c = false)
    (hx : x ∈ spellOffset s) : isSign x = false := by
  rw [spellOffset_eq] at hx
  obtain ⟨c, hc, hx⟩ := List.mem_flatMap.mp hx
  rw [← Bool.not_eq_true]
  intro hsign
  have hopens := opensZone_of_mem hx hsign
  rw [hs c hc] at hopens
  cases hopens

theorem spellChar_of_isSign (h : isSign c = true) : isZulu c = false ∧ spellChar c = [c] := by
  unfold isSign at h
  rw [Bool.or_eq_true, decide_eq_true_eq, decide_eq_true_eq] at h
  rcases h with rfl | rfl
  · exact ⟨rfl, rfl⟩
  · exact ⟨rfl, rfl⟩

/-- A zone begins with a sign when it is spelled. -/
theorem exists_sign_spellChar (h : opensZone c = true) :
    ∃ x r, spellChar c = x :: r ∧ isSign x = true := by
  rcases Bool.or_eq_true_iff.mp h with h | h
  · exact ⟨c, [], (spellChar_of_isSign h).2, h⟩
  · exact ⟨'+', "00:00".toList, spellChar_of_isZulu h, rfl⟩

/-! ## Texts that are spelled character by character -/

theorem isAscii_of_dateChar (h : DateChar c) : Text.isAscii c = true := by
  rcases h with h | rfl | rfl
  · exact (Text.digit_char h).1
  · rfl
  · rfl

/-- A character whose spelling begins like a date is spelled as that one character, or the spelling
begins with a `W` and goes on with what no date has. -/
theorem spellChar_of_dateChar {r : List Char} (h : spellChar c = x :: r) (hx : DateChar x) :
    r = [] ∨ x = 'W' ∧ ∃ d t, r = d :: t ∧ ¬ DateChar d := by
  cases hc : Text.isAscii c with
  | true =>
    left
    unfold spellChar at h
    split at h
    · cases h
      rcases hx with h | h | h <;> cases h
    · rw [Text.upperChar_of_isAscii hc] at h
      exact (List.cons.inj h).2.symm
  | false =>
    right
    rw [spellChar_outside hc] at h
    have hmem : x ∈ Text.upperChar c := h ▸ List.mem_cons_self
    have hupper := (Text.mem_upperChar_outside hc hmem (isAscii_of_dateChar hx)).1
    have hw : x = 'W' := by
      rcases hx with hx | rfl | rfl
      · rw [(Text.digit_char hx).2.1] at hupper
        cases hupper
      · cases hupper
      · rfl
    subst hw
    -- a small w with a ring above is spelled in two characters
    refine ⟨rfl, '\u030a', [], Text.upperChar_outside_w hc h, ?_⟩
    rintro (h | h | h) <;> cases h

/-- What stands at the beginning of the spelled text, in characters of a date, is the beginning of
the text, one character for each. Only a `W` at its end could be half of a character. -/
theorem exists_prefix {A B : List Char} (h : spellOffset s = A ++ B) (hA : ∀ c ∈ A, DateChar c)
    (hlast : A.getLast? ≠ some 'W') :
    ∃ p q, s = p ++ q ∧ spellOffset p = A ∧ spellOffset q = B ∧ p.length = A.length := by
  induction A generalizing s with
  | nil => exact ⟨[], s, rfl, rfl, h, rfl⟩
  | cons a A ih =>
    obtain ⟨ha, hrest⟩ := List.forall_mem_cons.mp hA
    cases s with
    | nil => cases h
    | cons c s =>
      rw [spellOffset_cons] at h
      obtain ⟨x, r, hspell⟩ := List.exists_cons_of_ne_nil (spellChar_ne_nil c)
      rw [hspell, List.cons_append, List.cons_append, List.cons.injEq] at h
      obtain ⟨rfl, h⟩ := h
      have hone : r = [] := by
        rcases spellChar_of_dateChar hspell ha with hr | ⟨rfl, d, t, rfl, hd⟩
        · exact hr
        · cases A with
          | nil => exact absurd rfl hlast
          | cons a A =>
            have hda : d = a := (List.cons.inj h).1
            exact absurd (hda ▸ hrest a List.mem_cons_self) hd
      have hlast' : A.getLast? ≠ some 'W' := by
        intro hw
        refine hlast ?_
        rw [List.getLast?_cons, hw]
        rfl
      rw [hone] at h hspell
      obtain ⟨p, q, rfl, hp, hq, hlength⟩ := ih h hrest hlast'
      refine ⟨c :: p, q, rfl, ?_, hq, by rw [List.length_cons, List.length_cons, hlength]⟩
      rw [spellOffset_cons, hspell, hp]
      rfl

/-- The text of a date has as many characters as its spelling. -/
theorem length_of_isDateText (h : IsoReader.IsDateText (spellOffset s)) :
    s.length = (spellOffset s).length := by
  obtain ⟨p, q, rfl, -, hq, hlength⟩ :=
    exists_prefix (List.append_nil (spellOffset s)).symm h.plain h.getLast?_ne
  rw [spellOffset_eq_nil hq, List.append_nil] at hlength ⊢
  exact hlength

theorem not_isZulu_of_isDateText (h : IsoReader.IsDateText (spellOffset s)) (hc : c ∈ s) :
    isZulu c = false := by
  rw [← Bool.not_eq_true]
  intro hz
  have hplus : '+' ∈ spellOffset s := by
    rw [spellOffset_eq]
    refine List.mem_flatMap.mpr ⟨c, hc, ?_⟩
    rw [spellChar_of_isZulu hz]
    decide
  rcases h.plain _ hplus with h | h | h <;> cases h

end Wireform.Timestamp
