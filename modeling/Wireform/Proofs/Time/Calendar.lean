import Mathlib.Algebra.Ring.Nat
import Wireform.Time.Calendar

/-
  Wireform calendar: the day numbers of years 1 to 9999 and the dates of the calendar correspond.
  A day is found by its cycle of 400 years, its century, its four years and its year; the last day
  of a cycle and of four years is the one that the division alone would put into the next.
-/

namespace Wireform.Date

/-! ## Days of a year -/

/-- A day within a run of months falls into one of them. -/
theorem monthDay_spec {lengths : List Nat} {m n : Nat} (h : n < lengths.sum) :
    ∃ i < lengths.length, ∃ d, monthDay m n lengths = (m + i, d) ∧ 1 ≤ d ∧
      d ≤ lengths[i]?.getD 0 ∧ (lengths.take i).sum + d = n + 1 := by
  induction lengths generalizing m n with
  | nil => exact absurd h (Nat.not_lt_zero n)
  | cons k ks ih =>
    rw [monthDay]
    split
    · next hk => exact ⟨0, Nat.succ_pos _, n + 1, rfl, Nat.succ_pos n, hk, Nat.zero_add _⟩
    · next hk =>
      rw [List.sum_cons] at h
      obtain ⟨i, hi, d, heq, hpos, hlength, hsum⟩ := ih (m := m + 1) (n := n - k) (by omega)
      refine ⟨i + 1, Nat.succ_lt_succ hi, d, ?_, hpos, hlength, ?_⟩
      · rw [heq, Nat.add_assoc, Nat.add_comm 1 i]
      · rw [List.take_succ_cons, List.sum_cons]
        omega

theorem sum_monthLengths (leap : Bool) :
    (monthLengths leap).sum = 365 + if leap then 1 else 0 := by
  cases leap <;> rfl

theorem isLeap_iff {y : Nat} : isLeap y = true ↔ y % 4 = 0 ∧ (y % 100 ≠ 0 ∨ y % 400 = 0) := by
  simp only [isLeap, Bool.and_eq_true, Bool.or_eq_true, decide_eq_true_eq]

/-- The date of a day of a year. -/
theorem number_monthDay {y n : Nat} (hlow : 1 ≤ y) (hhigh : y ≤ 9999)
    (hn : n < 365 + if isLeap y then 1 else 0) :
    let md := monthDay 1 n (monthLengths (isLeap y))
    (Date.mk y md.1 md.2).isValid = true ∧
      (Date.mk y md.1 md.2).number = daysBeforeYear y + n + 1 := by
  rw [← sum_monthLengths] at hn
  obtain ⟨i, hi, d, heq, hpos, hlength, hsum⟩ := monthDay_spec (m := 1) hn
  have hmonths : (monthLengths (isLeap y)).length = 12 := rfl
  have hindex : 1 + i - 1 = i := by omega
  dsimp only
  rw [heq]
  constructor
  · simp only [isValid, Bool.and_eq_true, decide_eq_true_eq, hindex]
    exact ⟨⟨⟨⟨⟨hlow, hhigh⟩, by omega⟩, by omega⟩, hpos⟩, hlength⟩
  · have hbefore : daysBeforeMonth (isLeap y) (1 + i) = ((monthLengths (isLeap y)).take i).sum := by
      rw [daysBeforeMonth, hindex]
      rfl
    unfold number
    dsimp only
    rw [hbefore]
    omega

theorem bounds_of_isValid {d : Date} (h : d.isValid = true) :
    1 ≤ d.year ∧ d.year ≤ 9999 ∧ 1 ≤ d.month ∧ d.month ≤ 12 ∧ 1 ≤ d.day ∧ d.day ≤ 31 := by
  have hmonths : ∀ (leap : Bool) (i : Nat), (monthLengths leap)[i]?.getD 0 ≤ 31 := by
    intro leap i
    cases h : (monthLengths leap)[i]? with
    | none => exact Nat.zero_le 31
    | some n =>
      have hall : ∀ leap, ∀ n ∈ monthLengths leap, n ≤ 31 := by decide
      exact hall leap n (List.mem_of_getElem? h)
  simp only [isValid, Bool.and_eq_true, decide_eq_true_eq] at h
  obtain ⟨⟨⟨⟨⟨hlow, hhigh⟩, hfirst⟩, hlast⟩, hday⟩, hlength⟩ := h
  exact ⟨hlow, hhigh, hfirst, hlast, hday, Nat.le_trans hlength (hmonths _ _)⟩

/-! ## Years of a cycle -/

theorem daysBeforeYear_of_cycle (cycle : Nat) {century four one : Nat} (hcentury : century ≤ 3)
    (hfour : four ≤ 24) (hone : one ≤ 3) :
    daysBeforeYear (400 * cycle + 1 + 100 * century + 4 * four + one) =
      146097 * cycle + 36524 * century + 1461 * four + 365 * one := by
  unfold daysBeforeYear
  dsimp only
  omega

/-- A day of a cycle lies in one of its years. -/
theorem ofCycleDay_spec (cycle : Nat) {n : Nat} (hn : n < 146097)
    (hlast : 146097 * cycle + n < 3652059) :
    (ofCycleDay (400 * cycle + 1) n).isValid = true ∧
      (ofCycleDay (400 * cycle + 1) n).number = 146097 * cycle + n + 1 := by
  unfold ofCycleDay
  dsimp only
  generalize hcentury : min (n / 36524) 3 = century
  generalize ha : n - century * 36524 = a
  generalize hfour : a / 1461 = four
  generalize hb : a - four * 1461 = b
  generalize hone : min (b / 365) 3 = one
  generalize hr : b - one * 365 = r
  have hcenturyLe : century ≤ 3 := by omega
  have haLe : a ≤ 36524 ∧ (a = 36524 → century = 3) := by omega
  have hfourLe : four ≤ 24 := by omega
  have hbLe : b ≤ 1460 ∧ (b = 1460 → four = 24 → century = 3) := by omega
  have honeLe : one ≤ 3 := by omega
  have hsum : 36524 * century + 1461 * four + 365 * one + r = n := by omega
  have hdays := daysBeforeYear_of_cycle cycle hcenturyLe hfourLe honeLe
  -- a year of 366 days is the last of its four, and of a century only if that ends the cycle
  have hleap : r < 365 + if isLeap (400 * cycle + 1 + 100 * century + 4 * four + one) then 1
      else 0 := by
    by_cases hlong : r = 365
    · have hb' : b = 1460 ∧ one = 3 := by omega
      have hyear : isLeap (400 * cycle + 1 + 100 * century + 4 * four + one) = true := by
        rw [isLeap_iff]
        omega
      rw [hyear, if_pos rfl]
      omega
    · omega
  obtain ⟨hvalid, hnumber⟩ := number_monthDay (by omega) (by omega) hleap
  refine ⟨hvalid, hnumber.trans ?_⟩
  rw [hdays]
  omega

/-- Every day number of the calendar is that of its date. -/
theorem ofNumber_spec {n : Nat} (hlow : 1 ≤ n) (hhigh : n ≤ 3652059) :
    (ofNumber n).isValid = true ∧ (ofNumber n).number = n := by
  obtain ⟨hvalid, hnumber⟩ := ofCycleDay_spec ((n - 1) / 146097)
    (Nat.mod_lt (n - 1) (by decide)) (by omega)
  unfold ofNumber
  refine ⟨hvalid, hnumber.trans ?_⟩
  omega

end Wireform.Date
