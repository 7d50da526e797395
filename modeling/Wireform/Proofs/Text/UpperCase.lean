import Wireform.Proofs.Text.Case

/-
  Wireform text: what upper case makes of a character outside ASCII. Nothing but letters in front of
  `Z` can come out of it in ASCII, so digits, signs and `Z` in a text in upper case were there
  before, a `z` apart.
-/

namespace Wireform.Text

variable {c d : Char} {r : List Char}

/-- A run of upper case outside ASCII leads to code points outside ASCII, or it moves one character
to I or S. -/
def LeavesAscii (run : Nat × Nat × Nat × Nat) : Prop :=
  run.2.1 < 128 ∨ (128 ≤ run.2.2.2 ∧ run.2.2.2 + (run.2.1 - run.1) < 0xd800) ∨
    (0xe000 ≤ run.2.2.2 ∧ run.2.2.2 + (run.2.1 - run.1) < 0x110000) ∨
    (run.1 = run.2.1 ∧ (run.2.2.2 = 0x49 ∨ run.2.2.2 = 0x53))

instance (run : Nat × Nat × Nat × Nat) : Decidable (LeavesAscii run) :=
  inferInstanceAs (Decidable (_ ∨ _))

theorem leavesAscii_upperRuns : ∀ run ∈ upperRuns, LeavesAscii run := by decide +kernel

theorem isAscii_ofNat {n : Nat} (hlow : 128 ≤ n) (hvalid : n.isValidChar) :
    isAscii (Char.ofNat n) = false := by
  unfold isAscii
  rw [toNat_of_isValidChar hvalid]
  exact decide_eq_false (Nat.not_lt.mpr hlow)

theorem moved_upperRuns (hc : isAscii c = false) (hd : isAscii (moved upperRuns c) = true) :
    moved upperRuns c = 'I' ∨ moved upperRuns c = 'S' := by
  have hcode : 128 ≤ c.toNat := Nat.not_lt.mp (of_decide_eq_false hc)
  cases himage : runImage? upperRuns c.toNat with
  | none =>
    rw [moved_of_no_image himage, hc] at hd
    cases hd
  | some m =>
    obtain ⟨run, hrun, ⟨hfirst, hlast, -⟩, rfl⟩ := runImage?_eq_some himage
    rw [moved_of_image himage] at hd ⊢
    rcases leavesAscii_upperRuns run hrun with h | h | h | ⟨hone, h⟩
    · omega
    · rw [isAscii_ofNat (by omega) (Or.inl (by omega))] at hd
      cases hd
    · rw [isAscii_ofNat (by omega) (Or.inr (by omega))] at hd
      cases hd
    · have hzero : c.toNat - run.1 = 0 := by omega
      rw [hzero]
      rcases h with h | h
      · exact Or.inl (by rw [h])
      · exact Or.inr (by rw [h])

/-- The upper-case form of a character outside ASCII comes from a run or from the table. -/
theorem upperChar_outside (hc : isAscii c = false) :
    upperChar c = [moved upperRuns c] ∨
      ∃ e ∈ upperExpansions, upperChar c = e.2.map Char.ofNat := by
  have hc' : ¬ isAscii c = true := by
    rw [hc]
    exact Bool.false_ne_true
  unfold upperChar
  rw [if_neg hc']
  cases hfind : upperExpansions.find? (·.1 == c.toNat) with
  | none => exact Or.inl rfl
  | some e => exact Or.inr ⟨e, List.mem_of_find?_eq_some hfind, rfl⟩

/-- What stands in ASCII in the upper-case form of a character outside ASCII is a letter in front of
`Z`. -/
theorem mem_upperChar_outside (hc : isAscii c = false) (hd : d ∈ upperChar c)
    (hascii : isAscii d = true) : isUpperAscii d = true ∧ d ≠ 'Z' := by
  have htable : ∀ e ∈ upperExpansions, ∀ n ∈ e.2, isAscii (Char.ofNat n) = true →
      isUpperAscii (Char.ofNat n) = true ∧ Char.ofNat n ≠ 'Z' := by decide +kernel
  rcases upperChar_outside hc with h | ⟨e, he, h⟩
  · rw [h, List.mem_singleton] at hd
    subst hd
    rcases moved_upperRuns hc hascii with h | h
    · rw [h]
      decide
    · rw [h]
      decide
  · rw [h] at hd
    obtain ⟨n, hn, rfl⟩ := List.mem_map.mp hd
    exact htable e he n hn hascii

/-- A `W` that upper case makes of a character outside ASCII has a ring behind it. -/
theorem upperChar_outside_w (hc : isAscii c = false) (h : upperChar c = 'W' :: r) :
    r = ['\u030a'] := by
  have htable : ∀ e ∈ upperExpansions, (e.2.map Char.ofNat).head? = some 'W' →
      (e.2.map Char.ofNat).tail = ['\u030a'] := by decide +kernel
  rcases upperChar_outside hc with hrun | ⟨e, he, hmap⟩
  · have hw := (List.cons.inj (hrun.symm.trans h)).1
    rcases moved_upperRuns hc (by rw [hw]; rfl) with hother | hother
    · rw [hw] at hother
      cases hother
    · rw [hw] at hother
      cases hother
  · have hexpansion := htable e he
    rw [← hmap, h] at hexpansion
    exact hexpansion rfl

theorem upperChar_ne_nil (c : Char) : upperChar c ≠ [] := by
  have htable : ∀ e ∈ upperExpansions, e.2.map Char.ofNat ≠ [] := by decide +kernel
  cases hc : isAscii c with
  | true =>
    rw [upperChar_of_isAscii hc]
    exact List.cons_ne_nil _ _
  | false =>
    rcases upperChar_outside hc with h | ⟨e, he, h⟩
    · rw [h]
      exact List.cons_ne_nil _ _
    · rw [h]
      exact htable e he

end Wireform.Text
