import Mathlib.Data.List.DropRight
import Wireform.Checksum.Transfer
import Wireform.Proofs.Text.Digits

/-
  Wireform checksums of parts: which texts are taken for one. The search looks at the digits and
  dashes at the end of a text, and asks for one dash and a digit among them. `recognises_counts` says
  that such a text ends in a dash and a count unless its dash is the last character, and that a count
  behind a text in base64 is always found.
-/

namespace Wireform.ChecksumTransfer

/-- A digit or a dash. -/
def isCountChar (c : Char) : Bool := Text.isDigitAscii c || c = '-'

/-- The digits and dashes at the end of a text. -/
def countTail (s : String) : List Char := s.toList.rtakeWhile isCountChar

/-- A text ends in a dash and the number of parts. -/
def EndsInCount (s : String) : Prop :=
  ∃ front count, s.toList = front ++ '-' :: count ∧ count ≠ [] ∧
    ∀ c ∈ count, Text.isDigitAscii c = true

theorem isCountChar_of_isDigitAscii {c : Char} (hc : Text.isDigitAscii c = true) :
    isCountChar c = true := by
  unfold isCountChar
  rw [hc, Bool.true_or]

/-! ## The search from the end -/

/-- The search counts the dashes up to the first other character, and remembers a digit wherever it
stands. -/
theorem isPartLevel_go_iff (number dash : Bool) (s : List Char) :
    isPartLevel.go number dash s = true ↔
      (s.takeWhile isCountChar).count '-' + dash.toNat = 1 ∧
        (number = true ∨ ∃ c ∈ s.takeWhile isCountChar, Text.isDigitAscii c = true) := by
  induction s generalizing number dash with
  | nil => cases dash <;> simp [isPartLevel.go]
  | cons c s ih =>
    rw [isPartLevel.go]
    split
    · next hdigit =>
      have hne : c ≠ '-' := (Text.digit_char hdigit).2.2.2.1
      rw [ih, List.takeWhile_cons_of_pos (isCountChar_of_isDigitAscii hdigit),
        List.count_cons_of_ne hne]
      simp [hdigit]
    · next hdigit =>
      split
      · next hdash =>
        rw [hdash] at hdigit ⊢
        rw [List.takeWhile_cons_of_pos (by decide), List.count_cons_self]
        cases dash with
        | false => simp [ih, hdigit]
        | true => simp
      · next hdash =>
        have hother : ¬ isCountChar c = true := by simp [isCountChar, hdigit, hdash]
        rw [List.takeWhile_cons_of_neg hother]
        cases dash <;> simp

theorem isPartLevel_iff_countTail (s : String) :
    isPartLevel s = true ↔ (countTail s).count '-' = 1 ∧
      ∃ c ∈ countTail s, Text.isDigitAscii c = true := by
  unfold isPartLevel countTail List.rtakeWhile
  rw [isPartLevel_go_iff, List.count_reverse]
  simp

theorem isPartLevel_of_not_mem {value : String} (hdash : '-' ∉ value.toList) :
    isPartLevel value = false := by
  rw [← Bool.not_eq_true, isPartLevel_iff_countTail]
  rintro ⟨hone, -⟩
  have hnone : '-' ∉ countTail value := fun hmem => hdash ((List.rtakeWhile_suffix _ _).mem hmem)
  rw [List.count_eq_zero.mpr hnone] at hone
  cases hone

/-! ## Counts -/

/-- A text that is taken for a checksum of parts has digits and one dash at its end. -/
theorem exists_dash_of_isPartLevel {s : String} (h : isPartLevel s = true) :
    ∃ front count, s.toList = front ++ '-' :: count ∧ ∀ c ∈ count, Text.isDigitAscii c = true := by
  have hone := ((isPartLevel_iff_countTail s).mp h).1
  have hdash : '-' ∈ countTail s := List.count_pos_iff.mp (by omega)
  obtain ⟨before, count, htail⟩ := List.append_of_mem hdash
  rw [htail, List.count_append, List.count_cons_self] at hone
  have hcount : '-' ∉ count := List.count_eq_zero.mp (by omega)
  refine ⟨s.toList.rdropWhile isCountChar ++ before, count, ?_, fun c hc => ?_⟩
  · rw [List.append_assoc, ← htail]
    exact List.rdropWhile_append_rtakeWhile.symm
  · have hmem : c ∈ countTail s := by
      rw [htail]
      exact List.mem_append_right _ (List.mem_cons_of_mem _ hc)
    have hchar : isCountChar c = true := List.mem_rtakeWhile_imp hmem
    have hne : c ≠ '-' := ne_of_mem_of_not_mem hc hcount
    simpa [isCountChar, hne] using hchar

theorem getLast?_ne_dash_of_endsInCount {s : String} (h : EndsInCount s) :
    s.toList.getLast? ≠ some '-' := by
  obtain ⟨front, count, hs, hne, hdigits⟩ := h
  intro hlast
  rw [hs, List.getLast?_append, List.getLast?_cons_of_ne_nil hne,
    List.getLast?_eq_some_getLast hne, Option.some_or, Option.some.injEq] at hlast
  exact (Text.digit_char (hdigits _ (List.getLast_mem hne))).2.2.2.1 hlast

theorem endsInCount_of_isPartLevel {s : String} (h : isPartLevel s = true)
    (hlast : s.toList.getLast? ≠ some '-') : EndsInCount s := by
  obtain ⟨front, count, hs, hdigits⟩ := exists_dash_of_isPartLevel h
  refine ⟨front, count, hs, ?_, hdigits⟩
  rintro rfl
  exact hlast (by rw [hs, List.getLast?_concat])

/-- A count behind a text without dashes is found, whatever the text ends in. -/
theorem isPartLevel_of_count {b d : String} (hb : '-' ∉ b.toList) (hd : d ≠ "")
    (hdigits : ∀ c ∈ d.toList, Text.isDigitAscii c = true) : isPartLevel (b ++ "-" ++ d) = true := by
  have hall : ∀ c ∈ '-' :: d.toList, isCountChar c = true :=
    List.forall_mem_cons.mpr ⟨by decide, fun c hc => isCountChar_of_isDigitAscii (hdigits c hc)⟩
  have htail : countTail (b ++ "-" ++ d) = b.toList.rtakeWhile isCountChar ++ '-' :: d.toList := by
    have hs : (b ++ "-" ++ d).toList = b.toList ++ '-' :: d.toList := by simp
    unfold countTail List.rtakeWhile
    rw [hs, List.reverse_append, List.takeWhile_append_of_pos
      (fun c hc => hall c (List.mem_reverse.mp hc)), List.reverse_append, List.reverse_reverse]
  have hbefore : '-' ∉ b.toList.rtakeWhile isCountChar := fun hmem =>
    hb ((List.rtakeWhile_suffix _ _).mem hmem)
  have hbehind : '-' ∉ d.toList := fun hmem => absurd (hdigits '-' hmem) (by decide)
  rw [isPartLevel_iff_countTail, htail]
  constructor
  · rw [List.count_append, List.count_cons_self, List.count_eq_zero.mpr hbefore,
      List.count_eq_zero.mpr hbehind]
  · obtain ⟨c, hc⟩ := List.exists_mem_of_ne_nil _ fun hnil => hd (String.toList_eq_nil_iff.mp hnil)
    exact ⟨c, List.mem_append_right _ (List.mem_cons_of_mem _ hc), hdigits c hc⟩

/-- A text is taken for a checksum of parts if the digits and dashes at its end hold one dash and a
digit, and only then. It ends in a dash and a count, unless the dash is its last character. A text in
base64 is taken for one with any count behind it. -/
theorem recognises_counts (s : String) :
    (isPartLevel s = true ↔ (countTail s).count '-' = 1 ∧
      ∃ c ∈ countTail s, Text.isDigitAscii c = true) ∧
    (isPartLevel s = true → (EndsInCount s ↔ s.toList.getLast? ≠ some '-')) ∧
    ∀ b d : String, s = b ++ "-" ++ d →
      (∀ c ∈ b.toList, (Base64.value? c).isSome = true ∨ c = '=') → d ≠ "" →
      (∀ c ∈ d.toList, Text.isDigitAscii c = true) → isPartLevel s = true := by
  refine ⟨isPartLevel_iff_countTail s, fun h => ?_, ?_⟩
  · exact ⟨getLast?_ne_dash_of_endsInCount, endsInCount_of_isPartLevel h⟩
  · rintro b d rfl hb hd hdigits
    refine isPartLevel_of_count (fun hdash => ?_) hd hdigits
    exact absurd (hb '-' hdash) (by decide)

/-- The digits in front of the dash are not the count. -/
theorem recognises_count_behind_digits :
    isPartLevel "ZOyIygCy12-3" = true ∧ EndsInCount "ZOyIygCy12-3" := by
  have hsigns : ∀ c ∈ ("ZOyIygCy12" : String).toList, (Base64.value? c).isSome = true ∨ c = '=' :=
    List.all_iff_forall_prop.mp (by decide)
  obtain ⟨-, hcount, hbase64⟩ := recognises_counts "ZOyIygCy12-3"
  have hpart : isPartLevel "ZOyIygCy12-3" = true :=
    hbase64 "ZOyIygCy12" "3" (by decide) hsigns (by decide) (List.all_eq_true.mp (by decide))
  exact ⟨hpart, (hcount hpart).mpr (by decide)⟩

/-- A digit in front of the dash passes for a count. -/
theorem not_every_part_level_counted : ¬ ∀ s, isPartLevel s = true → EndsInCount s := by
  intro h
  exact getLast?_ne_dash_of_endsInCount (h "5-" (by decide)) (by decide)

end Wireform.ChecksumTransfer
