import Mathlib.Data.List.Forall2
import Wireform.Time.IsoReader

/-
  Wireform ISO 8601 texts: the layouts of a date. What `dateLength` cuts off is read as a date only
  if it has one of six layouts, so nothing but digits, dashes and a `W` stands in it. A time of day
  and an offset begin with two digits.
-/

namespace Wireform.IsoReader

open Moment (Clock)

/-! ## Layouts -/

/-- A character that may stand at a place of a layout, where `d` is the place of a digit. -/
def Place (l c : Char) : Prop := if l = 'd' then Text.isDigitAscii c = true else c = l

instance (l c : Char) : Decidable (Place l c) :=
  inferInstanceAs (Decidable (if l = 'd' then Text.isDigitAscii c = true else c = l))

/-- A text that has a layout. -/
def Fits (layout s : List Char) : Prop := List.Forall₂ Place layout s

def dash (dashed : Bool) : List Char := if dashed then ['-'] else []

/-- A year and a week. -/
def weekLayout (dashed : Bool) : List Char := "dddd".toList ++ (dash dashed ++ "Wdd".toList)

/-- A year, a week and a day of the week. -/
def weekDayLayout (dashed : Bool) : List Char :=
  "dddd".toList ++ (dash dashed ++ ("Wdd".toList ++ (dash dashed ++ ['d'])))

/-- A year, a month and a day. -/
def dayLayout (dashed : Bool) : List Char :=
  "dddd".toList ++ (dash dashed ++ ("dd".toList ++ (dash dashed ++ "dd".toList)))

def dateLayouts : List (List Char) :=
  [false, true].flatMap fun dashed => [weekLayout dashed, weekDayLayout dashed, dayLayout dashed]

section

variable {l l' s s' r : List Char} {n v : Nat}

theorem Fits.length_eq (h : Fits l s) : l.length = s.length := List.Forall₂.length_eq h

theorem Fits.append (h : Fits l s) (h' : Fits l' s') : Fits (l ++ l') (s ++ s') :=
  List.rel_append h h'

theorem fits_cons {c : Char} (hc : c ≠ 'd') (h : Fits l s) : Fits (c :: l) (c :: s) :=
  .cons (by unfold Place; rw [if_neg hc]) h

theorem fits_dash (dashed : Bool) : Fits (dash dashed) (dash dashed) := by
  cases dashed with
  | false => exact .nil
  | true => exact fits_cons (by decide) .nil

/-- What holds of the places of a layout holds of the characters. -/
theorem Fits.exists_place (h : Fits l s) {c : Char} (hc : c ∈ s) : ∃ p ∈ l, Place p c := by
  induction h with
  | nil => cases hc
  | cons hplace _ ih =>
    rcases List.mem_cons.mp hc with rfl | hc
    · exact ⟨_, List.mem_cons_self, hplace⟩
    · obtain ⟨p, hp, hplace⟩ := ih hc
      exact ⟨p, List.mem_cons_of_mem _ hp, hplace⟩

theorem Fits.place_getElem? (h : Fits l s) (i : Nat) {c : Char} (hc : s[i]? = some c) :
    ∃ p, l[i]? = some p ∧ Place p c := by
  induction h generalizing i with
  | nil => cases hc
  | cons hplace _ ih =>
    cases i with
    | zero =>
      cases hc
      exact ⟨_, rfl, hplace⟩
    | succ i => exact ih i hc

theorem takeDigits_eq_some (h : takeDigits n s = some (v, r)) :
    ∃ ds, Fits (List.replicate n 'd') ds ∧ s = ds ++ r := by
  have hfits : ∀ ds : List Char, (∀ c ∈ ds, Text.isDigitAscii c = true) →
      Fits (List.replicate ds.length 'd') ds := by
    intro ds hds
    induction ds with
    | nil => exact .nil
    | cons c ds ih =>
      obtain ⟨hc, hds⟩ := List.forall_mem_cons.mp hds
      exact .cons hc (ih hds)
  unfold takeDigits at h
  dsimp only at h
  split at h
  · next hdigits =>
    rw [Bool.and_eq_true, decide_eq_true_eq] at hdigits
    obtain ⟨hlength, hall⟩ := hdigits
    cases h
    refine ⟨s.take n, ?_, (List.take_append_drop n s).symm⟩
    have htake := hfits (s.take n) (List.all_eq_true.mp hall)
    rwa [hlength] at htake
  · cases h

theorem dropDash_eq_some {dashed : Bool} (h : dropDash dashed s = some r) :
    s = dash dashed ++ r := by
  unfold dropDash at h
  split at h
  · cases dashed with
    | false =>
      cases h
      rfl
    | true =>
      cases h
      rfl
  · cases dashed with
    | false =>
      cases h
      rfl
    | true => cases h

/-! ## Dates -/

/-- The week date or the calendar date behind a year. -/
def readBehindYear (y : Nat) (dashed : Bool) : List Char → Option Date
  | 'W' :: r => do
    let (week, r) ← takeDigits 2 r
    if r.isEmpty then Date.ofWeek? y week 1
    else
      let (day, _) ← takeDigits 1 (← dropDash dashed r)
      Date.ofWeek? y week day
  | r => do
    let (m, r) ← takeDigits 2 r
    let (d, _) ← takeDigits 2 (← dropDash dashed r)
    some ⟨y, m, d⟩

theorem readDate_eq (s : List Char) : readDate s = (takeDigits 4 s).bind fun (v, t) =>
    match t with
    | '-' :: r => readBehindYear v true r
    | r => readBehindYear v false r := by
  unfold readDate
  refine congrArg (Option.bind _) (funext fun (v, t) => ?_)
  symm
  dsimp only
  split
  · rfl
  · simp only
    rfl

theorem readDate_eq_some {d : Date} (h : readDate s = some d) :
    ∃ y dashed r, Fits "dddd".toList y ∧ s = y ++ (dash dashed ++ r) ∧
      ∃ v, readBehindYear v dashed r = some d := by
  rw [readDate_eq] at h
  obtain ⟨⟨v, t⟩, hyear, hbehind⟩ := Option.bind_eq_some_iff.mp h
  obtain ⟨y, hy, rfl⟩ := takeDigits_eq_some hyear
  dsimp only at hbehind
  split at hbehind
  · next r => exact ⟨y, true, r, hy, rfl, v, hbehind⟩
  · exact ⟨y, false, t, hy, rfl, v, hbehind⟩

theorem readBehindYear_eq_some {y : Nat} {dashed : Bool} {d : Date}
    (h : readBehindYear y dashed s = some d) :
    Fits "Wdd".toList s ∨ (∃ p r, Fits ("Wdd".toList ++ (dash dashed ++ ['d'])) p ∧ s = p ++ r) ∨
      ∃ p r, Fits ("dd".toList ++ (dash dashed ++ "dd".toList)) p ∧ s = p ++ r := by
  unfold readBehindYear at h
  split at h
  · next t =>
    obtain ⟨⟨week, u⟩, hweek, hrest⟩ := Option.bind_eq_some_iff.mp h
    obtain ⟨w, hw, rfl⟩ := takeDigits_eq_some hweek
    have hfits : Fits "Wdd".toList ('W' :: w) := fits_cons (by decide) hw
    dsimp only at hrest
    split at hrest
    · next hend =>
      rw [List.isEmpty_iff.mp hend, List.append_nil]
      exact Or.inl hfits
    · obtain ⟨t, hdash, hrest⟩ := Option.bind_eq_some_iff.mp hrest
      obtain ⟨⟨day, r⟩, hday, -⟩ := Option.bind_eq_some_iff.mp hrest
      obtain ⟨x, hx, rfl⟩ := takeDigits_eq_some hday
      refine Or.inr (Or.inl ⟨'W' :: w ++ (dash dashed ++ x), r,
        hfits.append ((fits_dash dashed).append hx), ?_⟩)
      rw [dropDash_eq_some hdash]
      simp
  · obtain ⟨⟨month, u⟩, hmonth, hrest⟩ := Option.bind_eq_some_iff.mp h
    obtain ⟨m, hm, rfl⟩ := takeDigits_eq_some hmonth
    obtain ⟨t, hdash, hrest⟩ := Option.bind_eq_some_iff.mp hrest
    obtain ⟨⟨day, r⟩, hday, -⟩ := Option.bind_eq_some_iff.mp hrest
    obtain ⟨x, hx, rfl⟩ := takeDigits_eq_some hday
    refine Or.inr (Or.inr ⟨m ++ (dash dashed ++ x), r, Fits.append hm ((fits_dash dashed).append hx),
      ?_⟩)
    rw [dropDash_eq_some hdash]
    simp

/-- A date that is read has one of the layouts, and something may stand behind it unless it is a
year and a week. -/
theorem exists_layout {d : Date} (h : readDate s = some d) :
    ∃ dashed, Fits (weekLayout dashed) s ∨
      (∃ p r, Fits (weekDayLayout dashed) p ∧ s = p ++ r) ∨
      ∃ p r, Fits (dayLayout dashed) p ∧ s = p ++ r := by
  obtain ⟨y, dashed, t, hy, rfl, v, hbehind⟩ := readDate_eq_some h
  refine ⟨dashed, ?_⟩
  rcases readBehindYear_eq_some hbehind with ht | ⟨p, r, hp, rfl⟩ | ⟨p, r, hp, rfl⟩
  · exact Or.inl (hy.append ((fits_dash dashed).append ht))
  · exact Or.inr (Or.inl ⟨y ++ (dash dashed ++ p), r,
      hy.append ((fits_dash dashed).append hp), by simp⟩)
  · exact Or.inr (Or.inr ⟨y ++ (dash dashed ++ p), r,
      hy.append ((fits_dash dashed).append hp), by simp⟩)

theorem dateLength_le (s : List Char) : dateLength s ≤ 10 := by
  unfold dateLength
  dsimp only
  split
  · omega
  · split
    · split
      · split <;> omega
      · omega
    · split
      · split
        · omega
        · split <;> omega
      · omega

/-- A date without dashes is at most eight characters long. -/
theorem dateLength_le_of_plain {s : List Char} (h : s[4]? ≠ some '-') : dateLength s ≤ 8 := by
  unfold dateLength
  dsimp only
  rw [if_neg h]
  split
  · omega
  · split
    · split
      · omega
      · split <;> omega
    · omega

theorem eq_of_place_dash {p : Char} (h : Place p '-') : p = '-' := by
  unfold Place at h
  split at h
  · cases h
  · exact h.symm

/-- A layout of ten characters, or of eight without a dash behind the year. -/
def FillsCut (l : List Char) : Prop := l.length = 10 ∨ l.length = 8 ∧ l[4]? ≠ some '-'

instance (l : List Char) : Decidable (FillsCut l) := inferInstanceAs (Decidable (_ ∨ _))

theorem fillsCut_layout (dashed : Bool) :
    FillsCut (weekDayLayout dashed) ∧ FillsCut (dayLayout dashed) := by
  revert dashed
  decide

/-- Nothing stands behind the day. -/
theorem fits_cut {p : List Char} (hl : FillsCut l) (hp : Fits l p)
    (heq : s.take (dateLength s) = p ++ r) : Fits l (s.take (dateLength s)) := by
  have hlength := congrArg List.length heq
  rw [List.length_take, List.length_append, ← hp.length_eq] at hlength
  have hle : dateLength s ≤ l.length := by
    rcases hl with hten | ⟨height, hplace⟩
    · rw [hten]
      exact dateLength_le s
    · rw [height]
      refine dateLength_le_of_plain fun hdash => ?_
      have hfour : p[4]? = some '-' := by
        rw [← hdash, ← List.take_append_drop (dateLength s) s, heq, List.append_assoc,
          List.getElem?_append_left (by rw [← hp.length_eq]; omega)]
      obtain ⟨x, hx, hxplace⟩ := hp.place_getElem? 4 hfour
      exact hplace (hx.trans (congrArg some (eq_of_place_dash hxplace)))
  have hnil : r = [] := List.length_eq_zero_iff.mp (by omega)
  rw [heq, hnil, List.append_nil]
  exact hp

theorem mem_dateLayouts (dashed : Bool) : weekLayout dashed ∈ dateLayouts ∧
    weekDayLayout dashed ∈ dateLayouts ∧ dayLayout dashed ∈ dateLayouts := by
  revert dashed
  decide

/-- What is cut off and read as a date has one of the layouts. -/
theorem readDate_layout {d : Date} (h : readDate (s.take (dateLength s)) = some d) :
    ∃ l ∈ dateLayouts, Fits l (s.take (dateLength s)) := by
  obtain ⟨dashed, hweek | ⟨p, r, hp, heq⟩ | ⟨p, r, hp, heq⟩⟩ := exists_layout h
  · exact ⟨_, (mem_dateLayouts dashed).1, hweek⟩
  · exact ⟨_, (mem_dateLayouts dashed).2.1, fits_cut (fillsCut_layout dashed).1 hp heq⟩
  · exact ⟨_, (mem_dateLayouts dashed).2.2, fits_cut (fillsCut_layout dashed).2 hp heq⟩

/-- A character that may stand in the text of a date. -/
def DateChar (c : Char) : Prop := Text.isDigitAscii c = true ∨ c = '-' ∨ c = 'W'

/-- The text of a date. -/
structure IsDateText (s : List Char) : Prop where
  long : 7 ≤ s.length
  short : s.length ≤ 10
  plain : ∀ c ∈ s, DateChar c
  last : ∃ c ∈ s.getLast?, Text.isDigitAscii c = true

theorem IsDateText.getLast?_ne (h : IsDateText s) : s.getLast? ≠ some 'W' := by
  intro hw
  obtain ⟨c, hc, hdigit⟩ := h.last
  rw [hw] at hc
  cases hc
  cases hdigit

theorem isDateText_of_fits (hl : l ∈ dateLayouts) (h : Fits l s) : IsDateText s := by
  have hlayouts : ∀ l ∈ dateLayouts, 7 ≤ l.length ∧ l.length ≤ 10 ∧
      (l.all fun p => p = 'd' ∨ p = '-' ∨ p = 'W') = true ∧ l[l.length - 1]? = some 'd' := by
    decide
  obtain ⟨hlong, hshort, hplaces, hlast⟩ := hlayouts l hl
  have hlength := h.length_eq
  refine ⟨by omega, by omega, fun c hc => ?_, ?_⟩
  · obtain ⟨p, hp, hplace⟩ := h.exists_place hc
    rcases of_decide_eq_true (List.all_eq_true.mp hplaces p hp) with rfl | rfl | rfl
    · exact Or.inl hplace
    · exact Or.inr (Or.inl hplace)
    · exact Or.inr (Or.inr hplace)
  · have hne : s ≠ [] := List.ne_nil_of_length_pos (by omega)
    have hc := List.getLast?_eq_some_getLast hne
    rw [List.getLast?_eq_getElem?] at hc
    obtain ⟨p, hp, hplace⟩ := h.place_getElem? _ hc
    rw [← hlength, hlast] at hp
    cases hp
    exact ⟨s.getLast hne, List.getLast?_eq_some_getLast hne, hplace⟩

theorem isDateText_of_readDate {d : Date} (h : readDate (s.take (dateLength s)) = some d) :
    IsDateText (s.take (dateLength s)) := by
  obtain ⟨l, hl, hfits⟩ := readDate_layout h
  exact isDateText_of_fits hl hfits

/-! ## Times of day -/

/-- A time of day begins with two digits. -/
theorem exists_digits_of_readClock {x : Clock × Bool} (h : readClock s = some x) :
    ∃ ds r, Fits ['d', 'd'] ds ∧ s = ds ++ r := by
  obtain ⟨y, hpairs, -⟩ := Option.map_eq_some_iff.mp h
  unfold readPairs at hpairs
  obtain ⟨⟨v, r⟩, hdigits, -⟩ := Option.bind_eq_some_iff.mp hpairs
  obtain ⟨ds, hds, rfl⟩ := takeDigits_eq_some hdigits
  exact ⟨ds, r, hds, rfl⟩

/-- A sign, which ends a time of day and begins an offset. -/
def isSign (c : Char) : Bool := c = '+' || c = '-'

/-- A time of day without an offset has nothing left over; in front of an offset anything may be. -/
theorem readTime_append {zone : List Char} (hs : ∀ c ∈ s, isSign c = false)
    (hzone : ∀ c ∈ zone.head?, isSign c = true) : readTime (s ++ zone) =
      (readClock s).bind fun (c, complete) =>
        if zone = [] then if complete then some (c, none) else none
        else (readOffset zone).map fun o => (c, some o) := by
  have hplain : ∀ c ∈ s, (!isSign c) = true := fun c hc => by rw [hs c hc]; rfl
  have htake : zone.takeWhile (fun c => !isSign c) = [] := by
    cases zone with
    | nil => rfl
    | cons c r => rw [List.takeWhile_cons_of_neg (by rw [hzone c rfl]; decide)]
  have hdrop : zone.dropWhile (fun c => !isSign c) = zone := by
    cases zone with
    | nil => rfl
    | cons c r => rw [List.dropWhile_cons_of_neg (by rw [hzone c rfl]; decide)]
  show ((readClock ((s ++ zone).takeWhile fun c => !isSign c)).bind fun (c, complete) =>
    if ((s ++ zone).dropWhile fun c => !isSign c).isEmpty then
      if complete then some (c, none) else none
    else (readOffset ((s ++ zone).dropWhile fun c => !isSign c)).bind fun o => some (c, some o)) = _
  rw [List.takeWhile_append_of_pos hplain, List.dropWhile_append_of_pos hplain, htake, hdrop,
    List.append_nil]
  cases zone with
  | nil => rfl
  | cons c r =>
    refine congrArg (Option.bind _) (funext fun (y, complete) => ?_)
    dsimp only
    rw [List.isEmpty_cons, if_neg Bool.false_ne_true, if_neg (List.cons_ne_nil c r),
      Option.map_eq_bind]
    rfl

theorem exists_digits_of_readTime {x : Clock × Option Int} (h : readTime s = some x) :
    ∃ ds r, Fits ['d', 'd'] ds ∧ s = ds ++ r := by
  obtain ⟨y, hclock, -⟩ := Option.bind_eq_some_iff.mp h
  obtain ⟨ds, r, hds, heq⟩ := exists_digits_of_readClock hclock
  refine ⟨ds, r ++ s.dropWhile fun c => !isSign c, hds, ?_⟩
  rw [← List.append_assoc, ← heq]
  exact (List.takeWhile_append_dropWhile).symm

/-- How a text is read: as a date, with a mark and a time of day behind it or with nothing. -/
theorem read_eq_some {m : Moment} (h : read s = some m) :
    7 ≤ s.length ∧ ∃ d, readDate (s.take (dateLength s)) = some d ∧
      (s.drop (dateLength s) = [] ∨ ∃ x r c o, s.drop (dateLength s) = x :: r ∧
        readTime r = some (c, o) ∧ Moment.ofParts? d c o = some m) := by
  unfold read at h
  by_cases hlong : s.length < 7
  · rw [if_pos hlong] at h
    cases h
  rw [if_neg hlong] at h
  obtain ⟨d, hd, hrest⟩ := Option.bind_eq_some_iff.mp h
  refine ⟨Nat.not_lt.mp hlong, d, hd, ?_⟩
  split at hrest
  · next hdrop => exact Or.inl hdrop
  · next x r hdrop =>
    obtain ⟨⟨c, o⟩, htime, hparts⟩ := Option.bind_eq_some_iff.mp hrest
    exact Or.inr ⟨x, r, c, o, hdrop, htime, hparts⟩

theorem read_of_parts {d : Date} {x : Char} {c : Clock} {o : Option Int} (hlong : 7 ≤ s.length)
    (hd : readDate (s.take (dateLength s)) = some d) (hdrop : s.drop (dateLength s) = x :: r)
    (htime : readTime r = some (c, o)) : read s = Moment.ofParts? d c o := by
  unfold read
  rw [if_neg (Nat.not_lt.mpr hlong), hd, hdrop]
  dsimp only
  simp only [Option.bind_eq_bind, Option.bind_some, htime]

end

end Wireform.IsoReader
