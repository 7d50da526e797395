import Wireform.Proofs.Text.Words
import Wireform.Proofs.Time.RoundTrip

/-
  Wireform mail dates: what is written as an http-date is read back as the same instant, rounded
  down to whole seconds. The text is cut into words, and each word behind the weekday gives its
  fields.
-/

namespace Wireform

namespace MailDate

open Moment (Clock)

variable {d : Date} {c : Clock} {w : List Char}

/-! ## The words of a date -/

/-- Characters at which the text of a date is cut: into words or into the parts of a list. -/
def isBreak (c : Char) : Bool := Text.isBlank c || c = ','

def weekdayWord (d : Date) : List Char := (Date.weekdayNames.getD d.weekday "").toList

def monthWord (d : Date) : List Char := (Date.monthNames.getD (d.month - 1) "").toList

/-- The words of a date behind its weekday. -/
def dateWords (d : Date) (c : Clock) : List (List Char) :=
  [Moment.two d.day, monthWord d, Text.padded 4 d.year, Moment.clockText c, "GMT".toList]

theorem isWord_of_clock_chars (hne : w ≠ []) (hw : ∀ x ∈ w, x ∈ "0123456789:.".toList) :
    Text.IsWord isBreak w := by
  have hchar : ∀ x ∈ "0123456789:.".toList, isBreak x = false :=
    List.all_iff_forall_prop.mp (by decide)
  exact ⟨hne, fun x hx => hchar x (hw x hx)⟩

theorem isWord_padded (k n : Nat) : Text.IsWord isBreak (Text.padded k n) := by
  refine isWord_of_clock_chars (Text.padded_ne_nil k n) fun x hx => ?_
  exact List.mem_append_left [':', '.'] (Text.mem_digits (Text.isDigitAscii_of_mem_padded hx))

theorem isWord_clockText (c : Clock) : Text.IsWord isBreak (Moment.clockText c) := by
  refine isWord_of_clock_chars ?_ fun x hx => IsoReader.mem_clockChars (List.mem_append_left _ hx)
  exact List.append_ne_nil_of_left_ne_nil (List.append_ne_nil_of_left_ne_nil
    (Text.padded_ne_nil 2 c.hour) _) _

theorem isWord_weekdayWord (d : Date) : Text.IsWord isBreak (weekdayWord d) := by
  have hall : ∀ i < 7, Text.IsWord isBreak (Date.weekdayNames.getD i "").toList := by decide
  exact hall d.weekday (Nat.mod_lt _ (by decide))

theorem isWord_monthWord (hd : d.isValid = true) : Text.IsWord isBreak (monthWord d) := by
  have hall : ∀ i < 12, Text.IsWord isBreak (Date.monthNames.getD i "").toList := by decide
  have hbounds := Date.bounds_of_isValid hd
  exact hall (d.month - 1) (by omega)

theorem isWord_of_mem_dateWords (hd : d.isValid = true) (hw : w ∈ dateWords d c) :
    Text.IsWord isBreak w := by
  simp only [dateWords, List.mem_cons, List.not_mem_nil, or_false] at hw
  rcases hw with rfl | rfl | rfl | rfl | rfl
  · exact isWord_padded 2 d.day
  · exact isWord_monthWord hd
  · exact isWord_padded 4 d.year
  · exact isWord_clockText c
  · decide

theorem not_isBlank_of_not_isBreak {x : Char} (h : isBreak x = false) : Text.isBlank x = false :=
  (Bool.or_eq_false_iff.mp h).1

/-- A date as text: its weekday with a comma, and its other words. -/
def written (d : Date) (c : Clock) : List Char :=
  Text.join ' ' ((weekdayWord d ++ [',']) :: dateWords d c)

theorem httpText_eq (u : Moment) : u.httpText = written u.date u.clock := by
  unfold Moment.httpText written dateWords
  simp [weekdayWord, monthWord, Text.join, Moment.clockText]

theorem written_eq (d : Date) (c : Clock) :
    written d c = weekdayWord d ++ ',' :: ' ' :: Text.join ' ' (dateWords d c) := by
  have hne : dateWords d c ≠ [] := List.cons_ne_nil _ _
  rw [written, Text.join_cons ' ' _ hne, List.append_assoc, List.singleton_append]

theorem isWord_of_mem_written (hd : d.isValid = true)
    (hw : w ∈ (weekdayWord d ++ [',']) :: dateWords d c) : Text.IsWord Text.isBlank w := by
  rcases List.mem_cons.mp hw with rfl | hw
  · have hweekday := (isWord_weekdayWord d).imp fun _ => not_isBlank_of_not_isBreak
    refine ⟨List.append_ne_nil_of_left_ne_nil hweekday.ne_nil _, fun x hx => ?_⟩
    rcases List.mem_append.mp hx with hx | hx
    · exact hweekday.inside x hx
    · rw [List.mem_singleton.mp hx]
      decide
  · exact (isWord_of_mem_dateWords hd hw).imp fun _ => not_isBlank_of_not_isBreak

/-! ## The fields of a date -/

theorem fields?_written (hd : d.isValid = true) : fields? (written d c) =
    some ⟨Moment.two d.day, monthWord d, Text.padded 4 d.year, Moment.clockText c,
      "GMT".toList⟩ := by
  have hcomma : endsInComma (weekdayWord d ++ [',']) = true := by
    unfold endsInComma
    rw [List.getLast?_concat]
    rfl
  have hdrop : dropWeekday ((weekdayWord d ++ [',']) :: dateWords d c) = dateWords d c := by
    rw [dropWeekday, hcomma, Bool.true_or, if_pos rfl]
  have hday : (Moment.two d.day).isEmpty = false :=
    List.isEmpty_eq_false_iff.mpr (Text.padded_ne_nil 2 d.day)
  have hmonth : (monthWord d).isEmpty = false :=
    List.isEmpty_eq_false_iff.mpr (isWord_monthWord hd).ne_nil
  have hyear : (Text.padded 4 d.year).isEmpty = false :=
    List.isEmpty_eq_false_iff.mpr (Text.padded_ne_nil 4 d.year)
  unfold fields? written
  rw [Text.words_join (by decide) fun w hw => isWord_of_mem_written hd hw, hdrop]
  show (if (_ || _ || _) = true then none else _) = _
  rw [hday, hmonth, hyear]
  rfl

theorem monthNumber?_monthWord (hd : d.isValid = true) :
    monthNumber? (monthWord d) = some d.month := by
  have hall : ∀ i < 12, monthNumber? (Date.monthNames.getD i "").toList = some (i + 1) := by
    decide +kernel
  have hbounds := Date.bounds_of_isValid hd
  have hmonth : d.month - 1 + 1 = d.month := by omega
  rw [← hmonth]
  exact hall _ (by omega)

theorem dropComma_of_isWord (hw : Text.IsWord isBreak w) : dropComma w = w := by
  unfold dropComma endsInComma
  rw [if_neg]
  intro h
  have hcomma := hw.inside ',' (List.mem_of_getLast? (of_decide_eq_true h))
  cases hcomma

theorem isDigit_of_isDigitAscii {x : Char} (hx : Text.isDigitAscii x = true) :
    Text.isDigit x = true := by
  have hall : ∀ x ∈ ['0', '1', '2', '3', '4', '5', '6', '7', '8', '9'], Text.isDigit x = true :=
    List.all_eq_true.mp (by decide +kernel)
  exact hall x (Text.mem_digits hx)

/-- A year of digits and the time behind it stay where they are. -/
theorem arrange?_of_year {f : Fields} (hyear : f.year ≠ [])
    (hdigits : ∀ x ∈ f.year, Text.isDigitAscii x = true) (htime : Text.IsWord isBreak f.time) :
    arrange? f = some f := by
  have hcolon : ∀ x ∈ f.year, decide (x = ':') = false := by
    intro x hx
    refine decide_eq_false fun h => ?_
    have hdigit := hdigits x hx
    rw [h] at hdigit
    cases hdigit
  have hfind : f.year.findIdx (· = ':') = f.year.length :=
    List.findIdx_eq_length_of_false hcolon
  have hword : Text.IsWord isBreak f.year := isWord_of_clock_chars hyear fun x hx =>
    List.mem_append_left [':', '.'] (Text.mem_digits (hdigits x hx))
  have hhead : f.year.head?.any Text.isDigit = true := by
    rw [List.head?_eq_some_head hyear]
    exact isDigit_of_isDigitAscii (hdigits _ (List.head_mem hyear))
  unfold arrange?
  dsimp only
  rw [hfind, decide_eq_false (Nat.lt_irrefl f.year.length), Bool.and_false,
    if_neg Bool.false_ne_true]
  dsimp only
  rw [dropComma_of_isWord hword, dropComma_of_isWord htime, if_neg hyear, if_pos hhead]

theorem timeParts?_clockText (c : Clock) : timeParts? (Moment.clockText c) =
    some [Moment.two c.hour, Moment.two c.minute, Moment.two c.second] := by
  have hcolon : ∀ n, ':' ∉ Moment.two n := fun n h =>
    absurd (Text.isDigitAscii_of_mem_padded h) (by decide)
  have hpieces : Text.pieces ':' (Moment.clockText c) =
      [Moment.two c.hour, Moment.two c.minute, Moment.two c.second] := by
    unfold Moment.clockText
    rw [List.append_assoc, List.cons_append, Text.pieces_append_sep, Text.pieces_append_sep,
      Text.pieces_of_not_mem (hcolon _), Text.pieces_of_not_mem (hcolon _),
      Text.pieces_of_not_mem (hcolon _)]
    rfl
  unfold timeParts?
  rw [hpieces]

theorem readWhole_padded {k n : Nat} (hk : 0 < k) (hk' : k ≤ Whole.maxDigits) (hn : n < 10 ^ k) :
    readWhole (Text.padded k n) = .ok n := by
  have hread := Whole.read_of_digits (Text.padded_ne_nil k n)
    (fun _ hx => Text.isDigitAscii_of_mem_padded hx)
    (Nat.le_trans (Nat.le_of_eq (Text.length_padded hk hn)) hk')
  unfold readWhole
  rw [hread, Text.digitsValue_padded]
  rfl

theorem readWhole_two {n : Nat} (hn : n < 100) : readWhole (Moment.two n) = .ok n :=
  readWhole_padded (by decide) (by decide) hn

/-- The numbers of a written date. A year below 100 would be taken for one of two digits. -/
theorem numbers_written (hd : d.isValid = true) (hc : c.isValid = true) (hyear : 100 ≤ d.year) :
    numbers (written d c) =
      .ok ([d.year, d.month, d.day, c.hour, c.minute, c.second], some 0) := by
  have hbounds := Date.bounds_of_isValid hd
  simp only [Clock.isValid, Bool.and_eq_true, decide_eq_true_eq] at hc
  obtain ⟨⟨⟨hhour, hminute⟩, hsecond⟩, -⟩ := hc
  have hfull : fullYear d.year = d.year := by
    unfold fullYear
    rw [if_pos (by omega)]
  have hzone : zoneSeconds? "GMT".toList = some 0 := by decide +kernel
  have htime : [Moment.two c.hour, Moment.two c.minute, Moment.two c.second].mapM readWhole =
      .ok [(c.hour : Int), c.minute, c.second] :=
    Outcome.mapM_eq_ok.mpr (.cons (readWhole_two (by omega)) (.cons (readWhole_two (by omega))
      (.cons (readWhole_two (by omega)) .nil)))
  unfold numbers
  rw [fields?_written hd]
  dsimp only
  unfold dayAndMonth?
  dsimp only
  rw [monthNumber?_monthWord hd]
  dsimp only
  rw [arrange?_of_year (Text.padded_ne_nil 4 d.year)
    (fun _ hx => Text.isDigitAscii_of_mem_padded hx) (isWord_clockText c)]
  dsimp only
  rw [timeParts?_clockText]
  dsimp only
  have hday : dropComma (Moment.two d.day) = Moment.two d.day :=
    dropComma_of_isWord (isWord_padded 2 d.day)
  rw [readWhole_padded (by decide) (by decide) (by omega), hday, readWhole_two (by omega), htime,
    hzone]
  show Except.ok ([fullYear d.year, (d.month : Int), d.day] ++ _, _) = _
  rw [hfull]
  rfl

/-- The numbers of a date that exists are small enough to be looked at. -/
theorem build_written (hd : d.isValid = true) (hc : c.isValid = true) {m : Moment}
    (h : Moment.ofParts? d { c with micro := 0 } (some 0) = some m) :
    build [d.year, d.month, d.day, c.hour, c.minute, c.second] (some 0) = .ok m := by
  have hbounds := Date.bounds_of_isValid hd
  simp only [Clock.isValid, Bool.and_eq_true, decide_eq_true_eq] at hc
  have hsmall : ∀ n ∈ [(d.year : Int), d.month, d.day, c.hour, c.minute, c.second],
      0 ≤ n ∧ n ≤ 9999 := by
    intro n hn
    simp only [List.mem_cons, List.not_mem_nil, or_false] at hn
    omega
  have hlarge : ¬ [(d.year : Int), d.month, d.day, c.hour, c.minute, c.second].any
      (fun n => maxField < n || n < -maxField - 1) = true := by
    intro hany
    obtain ⟨n, hn, hfield⟩ := List.any_eq_true.mp hany
    have hn := hsmall n hn
    simp only [Bool.or_eq_true, decide_eq_true_eq] at hfield
    unfold maxField at hfield
    omega
  have hnegative : ¬ [(d.year : Int), d.month, d.day, c.hour, c.minute, c.second].any
      (· < 0) = true := by
    intro hany
    obtain ⟨n, hn, hfield⟩ := List.any_eq_true.mp hany
    have hn := hsmall n hn
    have hfield := of_decide_eq_true hfield
    omega
  have hmoment : Moment.ofParts? ⟨d.year, d.month, d.day⟩ ⟨c.hour, c.minute, c.second, 0⟩
      ((some (0 : Int)).map (· * (Moment.microsPerSecond : Int))) = some m := h
  unfold build
  rw [if_neg (by decide), if_neg (by decide), if_neg hlarge, if_neg hnegative]
  simp only [List.map_cons, List.map_nil, Int.toNat_natCast]
  rw [hmoment]

end MailDate

namespace Moment

/-- The moment with its microseconds rounded down to whole seconds. -/
def toSeconds (m : Moment) : Moment := { m with reading := m.reading - m.reading % microsPerSecond }

theorem IsUtc.toSeconds {u : Moment} (h : IsUtc u) : IsUtc u.toSeconds := by
  obtain ⟨hzone, hlow, hhigh⟩ := h
  refine ⟨hzone, ?_, ?_⟩
  all_goals
    unfold Moment.toSeconds microsPerSecond
    dsimp only
    omega

/-- The date and the time of day without microseconds give the moment back, to the second. -/
theorem ofParts?_seconds {u : Moment} (h : IsUtc u) :
    ofParts? u.date { u.clock with micro := 0 } (some 0) = some u.toSeconds := by
  have hmicro : u.clock.micro - u.clock.micro % microsPerSecond = 0 := by
    have hsmall : u.clock.micro < microsPerSecond := Nat.mod_lt _ (by decide)
    rw [Nat.mod_eq_of_lt hsmall, Nat.sub_self]
  have hrounded := ofParts?_rounded h (Nat.dvd_refl microsPerSecond)
  rwa [hmicro] at hrounded

end Moment

namespace Timestamp

/-- An http-date is read as the instant that it was written for, rounded down to seconds. -/
theorem read_httpText {u : Moment} (h : u.IsUtc) (hyear : 100 ≤ u.date.year) :
    read .httpDate (String.ofList u.httpText) = .ok u.toSeconds := by
  have hdate := (Moment.isValid_date h).1
  have hclock := (Moment.isValid_clock u).1
  have htrim : Text.trim Text.isBlank u.httpText = u.httpText := by
    rw [MailDate.httpText_eq]
    exact Text.trim_join fun w hw => MailDate.isWord_of_mem_written hdate hw
  have hread : MailDate.read u.httpText = .ok u.toSeconds := by
    rw [MailDate.httpText_eq, MailDate.read_eq_numbers,
      MailDate.numbers_written hdate hclock hyear]
    exact MailDate.build_written hdate hclock (Moment.ofParts?_seconds h)
  unfold read readHttpDate
  dsimp only
  rw [String.toList_ofList, htrim, hread]
  dsimp only
  unfold toUtc
  rw [h.toSeconds.utc?_eq]

/-- A moment with UTC in years 1000 to 9999 comes back from its text in UTC: from a date-time to the
millisecond below it, and from an http-date to the second below it. -/
theorem read_write_utc {m u : Moment} (hu : m.utc? = some u) (hyear : 1000 ≤ u.date.year) :
    (∃ t, write? .dateTime m = some t ∧ read .dateTime t = .ok u.toMillis) ∧
      ∃ t, write? .httpDate m = some t ∧ read .httpDate t = .ok u.toSeconds := by
  have hutc := Moment.isUtc_of_utc? hu
  refine ⟨⟨_, write?_of_utc? hu .dateTime, read_dateTimeText hutc hyear⟩,
    ⟨_, write?_of_utc? hu .httpDate, ?_⟩⟩
  exact read_httpText hutc (Nat.le_trans (by decide) hyear)

/-- The last microsecond of the year 1999 in UTC, on a clock that is two and a half hours ahead. -/
def sampleMoment : Moment :=
  ⟨Moment.epoch + 946684800 * 1000000 - 1 + 9000 * 1000000, some (9000 * 1000000)⟩

theorem read_write_last_microsecond :
    (sampleMoment.utc? = some ⟨Moment.epoch + 946684800 * 1000000 - 1, some 0⟩ ∧
      write? .dateTime sampleMoment = some "1999-12-31T23:59:59.999Z" ∧
      write? .httpDate sampleMoment = some "Fri, 31 Dec 1999 23:59:59 GMT") ∧
    (∃ t, write? .dateTime sampleMoment = some t ∧
      read .dateTime t = .ok ⟨Moment.epoch + 946684800 * 1000000 - 1000, some 0⟩) ∧
    ∃ t, write? .httpDate sampleMoment = some t ∧
      read .httpDate t = .ok ⟨Moment.epoch + 946684799 * 1000000, some 0⟩ := by
  have hu : sampleMoment.utc? = some ⟨Moment.epoch + 946684800 * 1000000 - 1, some 0⟩ := by
    decide +kernel
  exact ⟨⟨hu, by decide +kernel, by decide +kernel⟩, read_write_utc hu (by decide +kernel)⟩

end Timestamp

end Wireform
