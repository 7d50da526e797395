import Wireform.Text.Quoted

/-
  Wireform text: a text in quotes is no shorter than one that it begins with is in its own quotes,
  though the two may stand in different ones (`length_quotedChars_le`). So a text that is shown
  twice, plain and in quotes, can be told from every other one (`append_quotedChars_inj`).
-/

namespace Wireform.Text

theorem quoteMark_cases (s : List Char) : quoteMark s = '\'' ∨ quoteMark s = '"' := by
  unfold quoteMark
  split
  · exact Or.inr rfl
  · exact Or.inl rfl

/-- Only a quote itself is longer in its own quotes than in others. -/
theorem length_quotedChar_le {q r c : Char} (hr : r = '\'' ∨ r = '"') (hc : c ≠ q) :
    (quotedChar q c).length ≤ (quotedChar r c).length := by
  by_cases hcr : c = r
  · subst hcr
    rcases hr with rfl | rfl
    all_goals
      rw [quotedChar, if_neg (by simp [hc])]
      decide
  · have hsame : quotedChar q c = quotedChar r c := by
      unfold quotedChar
      rw [decide_eq_false hc, decide_eq_false hcr]
    exact Nat.le_of_eq (congrArg List.length hsame)

/-- Where a longer text changes the quotes, the shorter one does not hold its own. -/
theorem quoteMark_not_mem {s t : List Char} (h : s <+: t) (hne : quoteMark s ≠ quoteMark t) :
    quoteMark s ∉ s := by
  intro hmem
  unfold quoteMark at hne hmem
  split at hmem
  · next hs =>
    simp only [Bool.and_eq_true, List.contains_iff_mem, Bool.not_eq_true',
      ← Bool.not_eq_true] at hs
    exact hs.2 hmem
  · next hs =>
    rw [if_neg hs] at hne
    split at hne
    · next ht =>
      simp only [Bool.and_eq_true, List.contains_iff_mem, Bool.not_eq_true',
        ← Bool.not_eq_true] at hs ht
      exact hs ⟨hmem, fun hd => ht.2 (h.subset hd)⟩
    · exact hne rfl

theorem length_flatMap_le {f g : Char → List Char} {s : List Char}
    (h : ∀ c ∈ s, (f c).length ≤ (g c).length) : (s.flatMap f).length ≤ (s.flatMap g).length := by
  induction s with
  | nil => exact Nat.le_refl 0
  | cons c s ih =>
    obtain ⟨hc, hs⟩ := List.forall_mem_cons.mp h
    rw [List.flatMap_cons, List.flatMap_cons, List.length_append, List.length_append]
    exact Nat.add_le_add hc (ih hs)

theorem length_quotedChars_le {s t : List Char} (h : s <+: t) :
    (quotedChars s).length ≤ (quotedChars t).length := by
  have hsame : (s.flatMap (quotedChar (quoteMark s))).length ≤
      (s.flatMap (quotedChar (quoteMark t))).length := by
    refine length_flatMap_le fun c hc => ?_
    by_cases hmark : quoteMark s = quoteMark t
    · exact Nat.le_of_eq (congrArg (fun q => (quotedChar q c).length) hmark)
    · exact length_quotedChar_le (quoteMark_cases t)
        fun heq => quoteMark_not_mem h hmark (heq ▸ hc)
  obtain ⟨r, rfl⟩ := h
  unfold quotedChars
  rw [List.flatMap_append]
  simp only [List.length_append, List.length_cons, List.length_nil] at hsame ⊢
  omega

/-- A text that stands before itself in quotes is found from both. -/
theorem append_quotedChars_inj {s t m : List Char}
    (h : s ++ (m ++ quotedChars s) = t ++ (m ++ quotedChars t)) : s = t := by
  have hshorter : ∀ {s t : List Char}, s <+: t →
      s ++ (m ++ quotedChars s) = t ++ (m ++ quotedChars t) → s = t := by
    intro s t hst heq
    have hlength := congrArg List.length heq
    have hle := length_quotedChars_le hst
    have hst' := hst.length_le
    simp only [List.length_append] at hlength
    exact hst.eq_of_length (by omega)
  rcases List.prefix_or_prefix_of_prefix (List.prefix_append s _)
    (h ▸ List.prefix_append t _) with hst | hts
  · exact hshorter hst h
  · exact (hshorter hts h.symm).symm

end Wireform.Text
