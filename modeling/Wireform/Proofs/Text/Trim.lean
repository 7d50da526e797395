import Wireform.Text.Blank

/-
  Wireform text: what trimming leaves. A text that trimming does not change begins and ends outside
  the class, so characters of the class added around it are all that trimming takes away.
-/

namespace Wireform.Text

theorem trimEnd_append {p : Char → Bool} (s : List Char) {w : List Char}
    (hw : w.all p = true) : trimEnd p (s ++ w) = trimEnd p s := by
  unfold trimEnd
  rw [List.reverse_append, List.dropWhile_append_of_pos]
  intro c hc
  exact List.all_eq_true.mp hw c (List.mem_reverse.mp hc)

theorem length_trimEnd_le (p : Char → Bool) (s : List Char) :
    (trimEnd p s).length ≤ s.length := by
  unfold trimEnd
  rw [List.length_reverse]
  have h := (List.dropWhile_suffix p (l := s.reverse)).length_le
  rw [List.length_reverse] at h
  exact h

theorem length_trim_le (p : Char → Bool) (s : List Char) : (trim p s).length ≤ s.length :=
  Nat.le_trans (length_trimEnd_le p _) (List.dropWhile_suffix p).length_le

/-- A text that trimming leaves as it is has nothing to drop at its start. -/
theorem dropWhile_eq_self_of_trim {p : Char → Bool} {s : List Char} (h : trim p s = s) :
    s.dropWhile p = s := by
  have hle := length_trimEnd_le p (s.dropWhile p)
  have heq : (trimEnd p (s.dropWhile p)).length = s.length := congrArg List.length h
  exact (List.dropWhile_suffix p).eq_of_length_le (by omega)

theorem trimEnd_eq_self_of_trim {p : Char → Bool} {s : List Char} (h : trim p s = s) :
    trimEnd p s = s := by
  have hs := h
  unfold trim at hs
  rw [dropWhile_eq_self_of_trim h] at hs
  exact hs

/-- A text outside the class has nothing to trim. -/
theorem trim_of_forall_not {p : Char → Bool} {s : List Char} (h : ∀ c ∈ s, p c = false) :
    trim p s = s := by
  have hdrop : ∀ t : List Char, (∀ c ∈ t, p c = false) → t.dropWhile p = t := by
    intro t ht
    cases t with
    | nil => rfl
    | cons c r =>
      rw [List.dropWhile_cons_of_neg]
      rw [ht c List.mem_cons_self]
      exact Bool.false_ne_true
  unfold trim trimEnd
  rw [hdrop s h, hdrop _ fun c hc => h c (List.mem_reverse.mp hc), List.reverse_reverse]

theorem dropWhile_append_left {p : Char → Bool} {w : List Char} (hw : w.all p = true)
    (s : List Char) : (w ++ s).dropWhile p = s.dropWhile p :=
  List.dropWhile_append_of_pos fun c hc => List.all_eq_true.mp hw c hc

/-- A text that keeps its start when the class is dropped starts outside the class. -/
theorem head_not_of_dropWhile_eq_self {p : Char → Bool} {c : Char} {r : List Char}
    (h : (c :: r).dropWhile p = c :: r) : p c = false := by
  cases hc : p c with
  | false => rfl
  | true =>
    rw [List.dropWhile_cons_of_pos hc] at h
    have hle := (List.dropWhile_suffix p (l := r)).length_le
    rw [h, List.length_cons] at hle
    omega

theorem dropWhile_append_of_eq_self {p : Char → Bool} {s : List Char} (hs : s ≠ [])
    (h : s.dropWhile p = s) (w : List Char) : (s ++ w).dropWhile p = s ++ w := by
  cases s with
  | nil => exact absurd rfl hs
  | cons c r =>
    have hc := head_not_of_dropWhile_eq_self h
    rw [List.cons_append, List.dropWhile_cons_of_neg]
    simp [hc]

/-- Trimming takes away exactly what was added around a trimmed text. -/
theorem trim_append {p : Char → Bool} {s : List Char} (hs : s ≠ []) (h : trim p s = s)
    {w : List Char} (hw : w.all p = true) : trim p (s ++ w) = s := by
  unfold trim
  rw [dropWhile_append_of_eq_self hs (dropWhile_eq_self_of_trim h), trimEnd_append s hw]
  exact trimEnd_eq_self_of_trim h

theorem trimEnd_ne_nil {p : Char → Bool} {s : List Char} (h : s.all p = false) :
    trimEnd p s ≠ [] := by
  intro hnil
  obtain ⟨c, hc, hout⟩ := List.all_eq_false.mp h
  rw [trimEnd, List.reverse_eq_nil_iff] at hnil
  have hwhole := List.takeWhile_append_dropWhile (p := p) (l := s.reverse)
  rw [hnil, List.append_nil] at hwhole
  rw [← List.mem_reverse, ← hwhole] at hc
  exact hout (List.all_eq_true.mp List.all_takeWhile c hc)

/-- A text that is not all in the class keeps what stands in front of it. -/
theorem trimEnd_append_left {p : Char → Bool} (w : List Char) {s : List Char}
    (h : s.all p = false) : trimEnd p (w ++ s) = w ++ trimEnd p s := by
  have hdrop : (s.reverse.dropWhile p).isEmpty = false := by
    have hne := trimEnd_ne_nil h
    rw [trimEnd, ne_eq, List.reverse_eq_nil_iff] at hne
    exact List.isEmpty_eq_false_iff.mpr hne
  unfold trimEnd
  rw [List.reverse_append, List.dropWhile_append, hdrop, if_neg Bool.false_ne_true,
    List.reverse_append, List.reverse_reverse]

/-- Characters of the class behind a text change nothing. -/
theorem trim_append_right {p : Char → Bool} (s : List Char) {w : List Char}
    (hw : w.all p = true) : trim p (s ++ w) = trim p s := by
  unfold trim
  rw [List.dropWhile_append]
  split
  · next hnil =>
    have hdrop := dropWhile_append_left hw []
    rw [List.append_nil] at hdrop
    rw [List.isEmpty_iff.mp hnil, hdrop]
    rfl
  · exact trimEnd_append _ hw

/-- What trimming at the end takes away, when it takes one character only. -/
theorem trimEnd_append_replicate (c : Char) (s : List Char) :
    trimEnd (· = c) s ++ List.replicate (s.length - (trimEnd (· = c) s).length) c = s := by
  have hparts := List.takeWhile_append_dropWhile (p := fun x : Char => decide (x = c))
    (l := s.reverse)
  have hsame : s.reverse.takeWhile (· = c) =
      List.replicate (s.reverse.takeWhile (· = c)).length c := by
    refine List.eq_replicate_of_mem fun x hx => ?_
    exact of_decide_eq_true (List.all_eq_true.mp List.all_takeWhile x hx)
  have hlength := congrArg List.length hparts
  rw [List.length_append, List.length_reverse] at hlength
  have hwhole := congrArg List.reverse hparts
  rw [List.reverse_append, List.reverse_reverse, hsame, List.reverse_replicate] at hwhole
  unfold trimEnd
  rw [List.length_reverse, ← hlength, Nat.add_sub_cancel]
  exact hwhole

theorem mem_of_mem_trimEnd {p : Char → Bool} {s : List Char} {c : Char}
    (h : c ∈ trimEnd p s) : c ∈ s := by
  unfold trimEnd at h
  rw [List.mem_reverse] at h
  exact List.mem_reverse.mp ((List.dropWhile_suffix p).mem h)

/-- The last character that trimming keeps lies outside the class. -/
theorem not_of_getLast?_trimEnd {p : Char → Bool} {s : List Char} {c : Char}
    (h : (trimEnd p s).getLast? = some c) : p c = false := by
  unfold trimEnd at h
  rw [List.getLast?_reverse] at h
  have := List.head?_dropWhile_not p s.reverse
  rw [h] at this
  simpa using this

/-- A text whose last character lies outside the class keeps its end. -/
theorem trimEnd_of_getLast? {p : Char → Bool} {s : List Char} {c : Char}
    (h : s.getLast? = some c) (hc : p c = false) : trimEnd p s = s := by
  obtain ⟨r, rfl⟩ := List.getLast?_eq_some_iff.mp h
  unfold trimEnd
  rw [List.reverse_concat, List.dropWhile_cons_of_neg (by simp [hc]), List.reverse_cons,
    List.reverse_reverse]

/-- A text is trimmed if its first and last characters lie outside the class. -/
theorem trim_eq_self_iff {p : Char → Bool} {s : List Char} : trim p s = s ↔
    (∀ c, s.head? = some c → p c = false) ∧ ∀ c, s.getLast? = some c → p c = false := by
  constructor
  · intro h
    constructor
    · intro c hc
      obtain ⟨r, rfl⟩ := List.head?_eq_some_iff.mp hc
      exact head_not_of_dropWhile_eq_self (dropWhile_eq_self_of_trim h)
    · intro c hc
      apply not_of_getLast?_trimEnd (s := s)
      rw [trimEnd_eq_self_of_trim h, hc]
  · rintro ⟨hstart, hend⟩
    have hdrop : s.dropWhile p = s := by
      cases s with
      | nil => rfl
      | cons c r => exact List.dropWhile_cons_of_neg (by simp [hstart c rfl])
    unfold trim
    rw [hdrop]
    cases hlast : s.getLast? with
    | none =>
      rw [List.getLast?_eq_none_iff.mp hlast]
      rfl
    | some c => exact trimEnd_of_getLast? hlast (hend c hlast)

theorem all_isBlank_of_all_isPad {w : List Char} (h : w.all isPad = true) :
    w.all isBlank = true := by
  rw [List.all_eq_true] at h ⊢
  exact fun c hc => isBlank_of_isPad (h c hc)

end Wireform.Text
