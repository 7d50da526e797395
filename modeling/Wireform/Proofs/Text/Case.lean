import Wireform.Text.Case

/-
  Wireform text: what letter case does twice. ASCII characters change one by one. A text in lower
  case stays as it is, since no image of a run is in a run again.
-/

namespace Wireform.Text

/-! ## ASCII -/

def lowerAscii (c : Char) : Char := if isUpperAscii c then Char.ofNat (c.toNat + 32) else c

def upperAscii (c : Char) : Char := if isLowerAscii c then Char.ofNat (c.toNat - 32) else c

/-- What holds of the first 128 code points holds of every ASCII character. -/
theorem forall_ascii {p : Char → Prop} (h : ∀ n < 128, p (Char.ofNat n)) {c : Char}
    (hc : isAscii c = true) : p c := by
  have hp := h c.toNat (of_decide_eq_true hc)
  rwa [Char.ofNat_toNat] at hp

theorem toNat_of_isValidChar {n : Nat} (h : n.isValidChar) : (Char.ofNat n).toNat = n := by
  unfold Char.ofNat
  rw [dif_pos h]
  rfl

theorem isAscii_of_isAlnumAscii {c : Char} (hc : isAlnumAscii c = true) : isAscii c = true := by
  unfold isAlnumAscii isLowerAscii isUpperAscii isDigitAscii at hc
  simp only [Bool.or_eq_true, Bool.and_eq_true, decide_eq_true_eq, Char.le_def,
    UInt32.le_iff_toNat_le] at hc
  refine decide_eq_true ?_
  show c.val.toNat < 128
  have hz : ('z' : Char).val.toNat = 122 := rfl
  have hZ : ('Z' : Char).val.toNat = 90 := rfl
  have h9 : ('9' : Char).val.toNat = 57 := rfl
  omega

theorem lowerChar_of_isAscii {c : Char} (hc : isAscii c = true) : lowerChar c = [lowerAscii c] :=
  if_pos hc

theorem upperChar_of_isAscii {c : Char} (hc : isAscii c = true) : upperChar c = [upperAscii c] :=
  if_pos hc

theorem lower_of_isAscii {s : List Char} (hs : ∀ c ∈ s, isAscii c = true) :
    lower s = s.map lowerAscii := by
  have hgo : ∀ before, lower.go before s = s.map lowerAscii := by
    induction s with
    | nil => exact fun _ => rfl
    | cons c s ih =>
      intro before
      obtain ⟨hc, hs⟩ := List.forall_mem_cons.mp hs
      have hsigma : c ≠ 'Σ' := by
        rintro rfl
        exact absurd hc (by decide)
      rw [lower.go, if_neg hsigma, lowerChar_of_isAscii hc, ih hs]
      rfl
  exact hgo []

theorem upper_of_isAscii {s : List Char} (hs : ∀ c ∈ s, isAscii c = true) :
    upper s = s.map upperAscii := by
  unfold upper
  induction s with
  | nil => rfl
  | cons c s ih =>
    obtain ⟨hc, hs⟩ := List.forall_mem_cons.mp hs
    rw [List.flatMap_cons, upperChar_of_isAscii hc, ih hs]
    rfl

/-! ## Lower case twice -/

/-- A code point is moved by a run. -/
def InRun (run : Nat × Nat × Nat × Nat) (n : Nat) : Prop :=
  run.1 ≤ n ∧ n ≤ run.2.1 ∧ (n - run.1) % run.2.2.1 = 0

theorem runImage?_eq_some {runs : List (Nat × Nat × Nat × Nat)} {n m : Nat}
    (h : runImage? runs n = some m) : ∃ run ∈ runs, InRun run n ∧ run.2.2.2 + (n - run.1) = m := by
  obtain ⟨run, hfind, hm⟩ := Option.map_eq_some_iff.mp h
  have hrun := List.find?_some hfind
  simp only [Bool.and_eq_true, decide_eq_true_eq, beq_iff_eq] at hrun
  exact ⟨run, List.mem_of_find?_eq_some hfind, ⟨hrun.1.1, hrun.1.2, hrun.2⟩, hm⟩

theorem runImage?_eq_none {runs : List (Nat × Nat × Nat × Nat)} {n : Nat}
    (h : ∀ run ∈ runs, ¬ InRun run n) : runImage? runs n = none := by
  refine Option.map_eq_none_iff.mpr (List.find?_eq_none.mpr fun run hrun hin => h run hrun ?_)
  simp only [Bool.and_eq_true, decide_eq_true_eq, beq_iff_eq] at hin
  exact ⟨hin.1.1, hin.1.2, hin.2⟩

theorem moved_of_image {runs : List (Nat × Nat × Nat × Nat)} {c : Char} {m : Nat}
    (h : runImage? runs c.toNat = some m) : moved runs c = Char.ofNat m := by
  unfold moved
  rw [h]
  rfl

theorem moved_of_no_image {runs : List (Nat × Nat × Nat × Nat)} {c : Char}
    (h : runImage? runs c.toNat = none) : moved runs c = c := by
  unfold moved
  rw [h]
  rfl

/-- Whether no image of the first run is moved by the second: they are apart, or they alternate. -/
def isClear (r t : Nat × Nat × Nat × Nat) : Bool :=
  Nat.blt (r.2.2.2 + (r.2.1 - r.1)) t.1 || Nat.blt t.2.1 r.2.2.2 ||
    ((r.2.2.1 % 2 == 0 || r.1 == r.2.1) && t.2.2.1 % 2 == 0 && r.2.2.2 % 2 != t.1 % 2)

theorem not_inRun_of_isClear {r t : Nat × Nat × Nat × Nat} (h : isClear r t = true) {n : Nat}
    (hn : InRun r n) : ¬ InRun t (r.2.2.2 + (n - r.1)) := by
  rintro ⟨hfirst, hlast, hstep⟩
  obtain ⟨hn, hn', hstep'⟩ := hn
  simp only [isClear, Bool.or_eq_true, Nat.blt_eq, Bool.and_eq_true, beq_iff_eq, bne_iff_ne] at h
  rcases h with (h | h) | ⟨⟨hr, ht⟩, hne⟩
  · omega
  · omega
  · have heven : 2 ∣ n - r.1 := by
      rcases hr with hr | hr
      · exact Nat.dvd_trans (Nat.dvd_of_mod_eq_zero hr) (Nat.dvd_of_mod_eq_zero hstep')
      · omega
    have heven' : 2 ∣ r.2.2.2 + (n - r.1) - t.1 :=
      Nat.dvd_trans (Nat.dvd_of_mod_eq_zero ht) (Nat.dvd_of_mod_eq_zero hstep)
    omega

/-- A capital I with a dot above, which has a lower-case form of two characters, as a run. -/
def dottedRun : Nat × Nat × Nat × Nat := (0x130, 0x130, 2, 0)

theorem all_isClear :
    (lowerRuns.all fun r => (dottedRun :: lowerRuns).all fun t => isClear r t) = true := by
  decide +kernel

/-- A character that lower case leaves as it is, wherever it stands. -/
def IsLowered (c : Char) : Prop := c ≠ 'Σ' ∧ lowerChar c = [c]

instance (c : Char) : Decidable (IsLowered c) := inferInstanceAs (Decidable (_ ∧ _))

/-- A character that no run moves is in lower case. -/
theorem isLowered_of_not_inRun {c : Char} (h : ∀ t ∈ dottedRun :: lowerRuns, ¬ InRun t c.toNat) :
    IsLowered c := by
  obtain ⟨hdotted, hruns⟩ := List.forall_mem_cons.mp h
  have hsigma : c ≠ 'Σ' := by
    rintro rfl
    exact hruns (0x3a3, 0x3ab, 1, 0x3c3) (by decide +kernel) ⟨by decide, by decide, by decide⟩
  refine ⟨hsigma, ?_⟩
  unfold lowerChar
  split
  · have hupper : isUpperAscii c = false := by
      have hrun := hruns (0x41, 0x5a, 1, 0x61) (by decide +kernel)
      rw [← Bool.not_eq_true]
      intro hc
      simp only [isUpperAscii, Bool.and_eq_true, decide_eq_true_eq, Char.le_def,
        UInt32.le_iff_toNat_le] at hc
      exact hrun ⟨hc.1, hc.2, Nat.mod_one _⟩
    rw [hupper]
    rfl
  · have hne : c ≠ '\u0130' := by
      rintro rfl
      exact hdotted ⟨by decide, by decide, by decide⟩
    rw [if_neg hne, moved_of_no_image (runImage?_eq_none hruns)]

/-- The image of a run is in lower case. -/
theorem isLowered_image {run : Nat × Nat × Nat × Nat} (hrun : run ∈ lowerRuns) {n : Nat}
    (hn : InRun run n) : IsLowered (Char.ofNat (run.2.2.2 + (n - run.1))) := by
  by_cases hvalid : (run.2.2.2 + (n - run.1)).isValidChar
  · refine isLowered_of_not_inRun fun t ht => ?_
    rw [toNat_of_isValidChar hvalid]
    exact not_inRun_of_isClear (List.all_eq_true.mp (List.all_eq_true.mp all_isClear run hrun) t ht)
      hn
  · have hnull : Char.ofNat (run.2.2.2 + (n - run.1)) = '\u0000' := by
      unfold Char.ofNat
      rw [dif_neg hvalid]
      rfl
    rw [hnull]
    decide +kernel

theorem isLowered_of_mem_lowerChar {c d : Char} (hc : c ≠ 'Σ') (h : d ∈ lowerChar c) :
    IsLowered d := by
  unfold lowerChar at h
  split at h
  · next hascii =>
    obtain rfl := List.mem_singleton.mp h
    refine forall_ascii (p := fun c => IsLowered (if isUpperAscii c then Char.ofNat (c.toNat + 32)
      else c)) (by decide +kernel) hascii
  · split at h
    · simp only [List.mem_cons, List.not_mem_nil, or_false] at h
      rcases h with rfl | rfl <;> decide +kernel
    · next hascii hdotted =>
      obtain rfl := List.mem_singleton.mp h
      cases himage : runImage? lowerRuns c.toNat with
      | none =>
        rw [moved_of_no_image himage]
        exact ⟨hc, by rw [lowerChar, if_neg hascii, if_neg hdotted, moved_of_no_image himage]⟩
      | some m =>
        obtain ⟨run, hrun, hn, rfl⟩ := runImage?_eq_some himage
        rw [moved_of_image himage]
        exact isLowered_image hrun hn

theorem isLowered_lowerSigma (before after : List Char) : IsLowered (lowerSigma before after) := by
  unfold lowerSigma
  split
  · decide +kernel
  · decide +kernel

theorem isLowered_of_mem_lower {s : List Char} {d : Char} (h : d ∈ lower s) : IsLowered d := by
  have hgo : ∀ before, d ∈ lower.go before s → IsLowered d := by
    clear h
    induction s with
    | nil => exact fun _ h => absurd h List.not_mem_nil
    | cons c s ih =>
      intro before h
      rw [lower.go] at h
      rcases List.mem_append.mp h with h | h
      · split at h
        · obtain rfl := List.mem_singleton.mp h
          exact isLowered_lowerSigma before s
        · next hc => exact isLowered_of_mem_lowerChar hc h
      · exact ih _ h
  exact hgo [] h

theorem lower_of_isLowered {s : List Char} (hs : ∀ c ∈ s, IsLowered c) : lower s = s := by
  have hgo : ∀ before, lower.go before s = s := by
    induction s with
    | nil => exact fun _ => rfl
    | cons c s ih =>
      intro before
      obtain ⟨⟨hsigma, hc⟩, hs⟩ := List.forall_mem_cons.mp hs
      rw [lower.go, if_neg hsigma, hc, ih hs]
      rfl
  exact hgo []

theorem lower_lower (s : List Char) : lower (lower s) = lower s :=
  lower_of_isLowered fun _ => isLowered_of_mem_lower

@[simp] theorem lowered_lowered (s : String) : lowered (lowered s) = lowered s := by
  unfold lowered
  rw [String.toList_ofList, lower_lower]

end Wireform.Text
