import Mathlib.Data.Bool.AllAny
import Wireform.Proofs.Number.WholeDoubles
import Wireform.Proofs.Time.Calendar
import Wireform.Proofs.Time.Overruns
import Wireform.Proofs.Time.Spelling

/-
  Wireform timestamps: what is written as a date-time or as seconds since the epoch is read back as
  the same instant. A date-time keeps milliseconds; seconds since the epoch are taken to be whole,
  since only then is their double exact.
-/

namespace Wireform

/-! ## Digits with zeros in front -/

namespace Text

theorem length_padded {k n : Nat} (hk : 0 < k) (h : n < 10 ^ k) : (padded k n).length = k := by
  have hle := (length_ofNat_le_iff hk).mpr h
  unfold padded
  rw [List.length_append, List.length_replicate]
  omega

theorem isDigitAscii_of_mem_padded {k n : Nat} {c : Char} (hc : c ∈ padded k n) :
    isDigitAscii c = true := by
  unfold padded at hc
  rcases List.mem_append.mp hc with h | h
  · rw [List.eq_of_mem_replicate h]
    rfl
  · exact isDigitAscii_of_mem h

theorem padded_ne_nil (k n : Nat) : padded k n ≠ [] := fun h =>
  ofNat_ne_nil n (List.append_eq_nil_iff.mp h).2

theorem exists_digit_padded (k n : Nat) :
    ∃ c r, padded k n = c :: r ∧ isDigitAscii c = true := by
  obtain ⟨c, r, h⟩ := List.exists_cons_of_ne_nil (padded_ne_nil k n)
  exact ⟨c, r, h, isDigitAscii_of_mem_padded (h ▸ List.mem_cons_self)⟩

theorem digitsValue_padded (k n : Nat) : digitsValue (padded k n) = n :=
  (digitsValue_zeros_append _ _).trans (digitsValue_ofNat n)

/-- Four digits need no zeros in front. -/
theorem padded_of_length {k n : Nat} (h : 10 ^ (k - 1) ≤ n) (hk : 1 < k) :
    padded k n = ofNat n := by
  have hle : ¬ (ofNat n).length ≤ k - 1 := by
    rw [length_ofNat_le_iff (by omega)]
    omega
  have hzero : k - (ofNat n).length = 0 := by omega
  unfold padded
  rw [hzero]
  rfl

end Text

namespace IsoReader

theorem takeDigits_padded {k n : Nat} (hk : 0 < k) (h : n < 10 ^ k) (r : List Char) :
    takeDigits k (Text.padded k n ++ r) = some (n, r) := by
  have hlength := Text.length_padded hk h
  have htake : (Text.padded k n ++ r).take k = Text.padded k n := by
    rw [List.take_append_of_le_length (by omega), List.take_of_length_le (by omega)]
  have hdrop : (Text.padded k n ++ r).drop k = r := List.drop_left' hlength
  have hall : (Text.padded k n).all Text.isDigitAscii = true :=
    List.all_eq_true.mpr fun c hc => Text.isDigitAscii_of_mem_padded hc
  unfold takeDigits
  dsimp only
  rw [htake, hdrop, hlength, hall, decide_eq_true rfl, Bool.true_and, if_pos rfl]
  exact congrArg (fun v => some (v, r)) (Text.digitsValue_padded k n)

theorem takeDigits_padded_end {k n : Nat} (hk : 0 < k) (h : n < 10 ^ k) :
    takeDigits k (Text.padded k n) = some (n, []) := by
  have hread := takeDigits_padded hk h []
  rwa [List.append_nil] at hread

/-! ## Dates and times of day -/

/-- A date with dashes. -/
def dateChars (d : Date) : List Char :=
  Text.padded 4 d.year ++ '-' :: (Text.padded 2 d.month ++ '-' :: Text.padded 2 d.day)

theorem padded_ne_cons {k n : Nat} {c : Char} {r : List Char} (hc : Text.isDigitAscii c = false)
    (s : List Char) : Text.padded k n ++ s ≠ c :: r := by
  intro heq
  obtain ⟨x, t, hx, hdigit⟩ := Text.exists_digit_padded k n
  rw [hx] at heq
  rw [(List.cons.inj heq).1, hc] at hdigit
  cases hdigit

theorem readDate_dateChars {d : Date} (hy : d.year < 10000) (hm : d.month < 100)
    (hd : d.day < 100) : readDate (dateChars d) = some d := by
  have hmonth := takeDigits_padded (Nat.zero_lt_two) hm ('-' :: Text.padded 2 d.day)
  unfold readDate dateChars
  simp only [takeDigits_padded (k := 4) (by decide) hy, Option.bind_eq_bind, Option.bind_some]
  split
  · next h => exact absurd h (padded_ne_cons rfl _)
  · rw [hmonth]
    simp only [Option.bind_some, dropDash, if_true, takeDigits_padded_end (k := 2) (by decide) hd]

section

variable {n v : Nat} {colons : Option Bool} {done : List Nat}

theorem readPairs_end (n : Nat) (colons : Option Bool) (done : List Nat) (hv : v < 100) :
    readPairs n colons done (Text.padded 2 v) = some ⟨done ++ [v], 0, true⟩ := by
  unfold readPairs
  simp only [takeDigits_padded_end (k := 2) (by decide) hv, Option.bind_eq_bind, Option.bind_some]

theorem readPairs_colon (n : Nat) (hcolons : colons.getD true = true) (done : List Nat)
    (hv : v < 100) {r : List Char} (hr : r ≠ []) :
    readPairs (n + 1) colons done (Text.padded 2 v ++ ':' :: r) =
      readPairs n (some true) (done ++ [v]) r := by
  obtain ⟨c, r, rfl⟩ := List.exists_cons_of_ne_nil hr
  rw [readPairs]
  simp only [takeDigits_padded (k := 2) (by decide) hv, Option.bind_eq_bind, Option.bind_some]
  rw [if_neg (by decide)]
  simp [hcolons]

theorem readPairs_fraction (n : Nat) (colons : Option Bool) (done : List Nat) (hv : v < 100)
    {r : List Char} (hr : r ≠ []) :
    readPairs n colons done (Text.padded 2 v ++ '.' :: r) =
      (readFraction r).map fun (u, all) => ⟨done ++ [v], u, all⟩ := by
  obtain ⟨c, r, rfl⟩ := List.exists_cons_of_ne_nil hr
  rw [readPairs]
  simp only [takeDigits_padded (k := 2) (by decide) hv, Option.bind_eq_bind, Option.bind_some]
  exact if_pos rfl

theorem readFraction_padded {n : Nat} (hn : n < 1000) :
    readFraction (Text.padded 3 n) = some (n * 1000, true) := by
  have hlength : min 6 (Text.padded 3 n).length = 3 := by
    rw [Text.length_padded (by decide) hn]
    rfl
  unfold readFraction
  simp only [hlength, takeDigits_padded_end (k := 3) (by decide) hn, Option.bind_eq_bind,
    Option.bind_some]
  rfl

end

/-- A time of day, with milliseconds unless the microseconds are zero. -/
def clockChars (c : Moment.Clock) : List Char :=
  Moment.clockText c ++ if c.micro = 0 then [] else '.' :: Text.padded 3 (c.micro / 1000)

/-- The time of day as a date-time keeps it. -/
def kept (c : Moment.Clock) : Moment.Clock := { c with micro := c.micro / 1000 * 1000 }

theorem readClock_clockChars {c : Moment.Clock} (hc : c.isValid = true) :
    readClock (clockChars c) = some (kept c, true) := by
  simp only [Moment.Clock.isValid, Bool.and_eq_true, decide_eq_true_eq] at hc
  obtain ⟨⟨⟨hhour, hminute⟩, hsecond⟩, hmicro⟩ := hc
  unfold Moment.microsPerSecond at hmicro
  have hshape : clockChars c = Text.padded 2 c.hour ++ ':' :: (Text.padded 2 c.minute ++ ':' ::
      (Text.padded 2 c.second ++ if c.micro = 0 then [] else '.' ::
        Text.padded 3 (c.micro / 1000))) := by
    simp [clockChars, Moment.clockText, Moment.two]
  have hne : ∀ n s, Text.padded 2 n ++ s ≠ [] := fun n s =>
    List.append_ne_nil_of_left_ne_nil (Text.padded_ne_nil 2 n) s
  have hpairs : readPairs 2 none [] (clockChars c) =
      some ⟨[c.hour, c.minute, c.second], c.micro / 1000 * 1000, true⟩ := by
    rw [hshape, readPairs_colon 1 rfl [] (by omega) (hne _ _),
      readPairs_colon 0 rfl _ (by omega) (hne _ _)]
    by_cases hzero : c.micro = 0
    · rw [if_pos hzero, List.append_nil, readPairs_end 0 _ _ (by omega), hzero]
      rfl
    · rw [if_neg hzero, readPairs_fraction 0 _ _ (by omega) (Text.padded_ne_nil 3 _),
        readFraction_padded (by omega)]
      rfl
  unfold readClock
  rw [hpairs]
  rfl

theorem mem_clockChars {c : Moment.Clock} {x : Char} (hx : x ∈ clockChars c) :
    x ∈ "0123456789:.".toList := by
  have hdigit : ∀ {k n}, x ∈ Text.padded k n → x ∈ "0123456789:.".toList := fun h =>
    List.mem_append_left [':', '.'] (Text.mem_digits (Text.isDigitAscii_of_mem_padded h))
  unfold clockChars Moment.clockText Moment.two at hx
  simp only [List.mem_append, List.mem_cons] at hx
  rcases hx with ((h | rfl | h) | rfl | h) | h
  · exact hdigit h
  · decide
  · exact hdigit h
  · decide
  · exact hdigit h
  · split at h
    · cases h
    · rcases List.mem_cons.mp h with rfl | h
      · decide
      · exact hdigit h

theorem readTime_clockChars {c : Moment.Clock} (hc : c.isValid = true) :
    readTime (clockChars c ++ "+00:00".toList) = some (kept c, some 0) := by
  have hsign : ∀ x ∈ "0123456789:.".toList, isSign x = false :=
    List.all_iff_forall_prop.mp (by decide)
  have hoffset : readOffset "+00:00".toList = some 0 := by decide +kernel
  have hzone : ∀ x ∈ "+00:00".toList.head?, isSign x = true := by
    intro x hx
    obtain rfl : '+' = x := Option.some.inj hx
    rfl
  rw [readTime_append (fun x hx => hsign x (mem_clockChars hx)) hzone, readClock_clockChars hc,
    Option.bind_some]
  dsimp only
  rw [if_neg (by decide), hoffset]
  rfl

theorem length_dateChars {d : Date} (hy : d.year < 10000) (hm : d.month < 100)
    (hd : d.day < 100) : (dateChars d).length = 10 := by
  unfold dateChars
  rw [List.length_append, List.length_cons, List.length_append, List.length_cons,
    Text.length_padded (by decide) hy, Text.length_padded (by decide) hm,
    Text.length_padded (by decide) hd]

/-- A date with dashes has ten characters, and no `W` stands behind its year. -/
theorem dateLength_dateChars {d : Date} (hy : d.year < 10000) (hm : d.month < 100)
    (hd : d.day < 100) (r : List Char) : dateLength (dateChars d ++ r) = 10 := by
  have hlong : ¬ (dateChars d ++ r).length = 7 := by
    rw [List.length_append, length_dateChars hy hm hd]
    omega
  have hyear := Text.length_padded (k := 4) (by decide) hy
  have hdash : (dateChars d ++ r)[4]? = some '-' := by
    unfold dateChars
    rw [List.append_assoc, List.getElem?_append_right (by omega), hyear]
    rfl
  have hmonth : (dateChars d ++ r)[5]? ≠ some 'W' := by
    intro h
    unfold dateChars at h
    rw [List.append_assoc, List.getElem?_append_right (by omega), hyear] at h
    obtain ⟨x, t, hx, hdigit⟩ := Text.exists_digit_padded 2 d.month
    rw [hx] at h
    cases h
    cases hdigit
  unfold dateLength
  rw [if_neg hlong, if_pos hdash, if_neg hmonth]

theorem read_written {d : Date} (hd : d.isValid = true) {c : Moment.Clock} (hc : c.isValid = true) :
    read (dateChars d ++ 'T' :: (clockChars c ++ "+00:00".toList)) =
      Moment.ofParts? d (kept c) (some 0) := by
  have hbounds := Date.bounds_of_isValid hd
  have hy : d.year < 10000 := by omega
  have hm : d.month < 100 := by omega
  have hday : d.day < 100 := by omega
  have hlength := length_dateChars hy hm hday
  have htake : (dateChars d ++ 'T' :: (clockChars c ++ "+00:00".toList)).take 10 = dateChars d :=
    List.take_left' hlength
  have hdrop : (dateChars d ++ 'T' :: (clockChars c ++ "+00:00".toList)).drop 10 =
      'T' :: (clockChars c ++ "+00:00".toList) := List.drop_left' hlength
  rw [← dateLength_dateChars hy hm hday ('T' :: (clockChars c ++ "+00:00".toList))] at htake hdrop
  refine read_of_parts ?_ ?_ hdrop (readTime_clockChars hc)
  · rw [List.length_append, hlength]
    omega
  · rw [htake, readDate_dateChars hy hm hday]

end IsoReader

/-! ## Moments in UTC -/

namespace Moment

/-- A moment on a clock that shows UTC, in years 1 to 9999. -/
structure IsUtc (u : Moment) : Prop where
  zone : u.offset = some 0
  low : 0 ≤ u.reading
  high : u.reading < limit

theorem isUtc_of_utc? {m u : Moment} (h : m.utc? = some u) : IsUtc u := by
  unfold utc? at h
  dsimp only at h
  split at h
  · next hrange =>
    rw [Bool.and_eq_true, decide_eq_true_eq, decide_eq_true_eq] at hrange
    cases h
    exact ⟨rfl, hrange.1, hrange.2⟩
  · cases h

theorem IsUtc.utc?_eq {u : Moment} (h : IsUtc u) : u.utc? = some u := by
  obtain ⟨hzone, hlow, hhigh⟩ := h
  obtain ⟨r, o⟩ := u
  cases hzone
  have hsame : r - (some (0 : Int)).getD 0 = r := Int.sub_zero r
  unfold utc?
  dsimp only at hlow hhigh ⊢
  have hrange : (decide (0 ≤ r) && decide (r < limit)) = true := by
    rw [Bool.and_eq_true, decide_eq_true_eq, decide_eq_true_eq]
    exact ⟨hlow, hhigh⟩
  rw [hsame, if_pos hrange]

/-- The moment with its microseconds rounded down to whole milliseconds. -/
def toMillis (m : Moment) : Moment := { m with reading := m.reading - m.reading % 1000 }

theorem IsUtc.toMillis {u : Moment} (h : IsUtc u) : IsUtc u.toMillis := by
  obtain ⟨hzone, hlow, hhigh⟩ := h
  refine ⟨hzone, ?_, ?_⟩
  all_goals
    unfold Moment.toMillis
    dsimp only
    omega

theorem isValid_ofMicros {n : Nat} (h : n < microsPerDay) :
    (Clock.ofMicros n).isValid = true ∧ (Clock.ofMicros n).micros = n := by
  unfold microsPerDay at h
  unfold Clock.isValid Clock.micros Clock.ofMicros
  simp only [Bool.and_eq_true, decide_eq_true_eq]
  unfold microsPerSecond at *
  omega

theorem isValid_date {u : Moment} (h : IsUtc u) :
    u.date.isValid = true ∧ u.date.number = u.reading.toNat / microsPerDay + 1 := by
  obtain ⟨-, hlow, hhigh⟩ := h
  refine Date.ofNumber_spec (Nat.succ_pos _) ?_
  unfold limit microsPerDay microsPerSecond at *
  omega

theorem isValid_clock (u : Moment) :
    u.clock.isValid = true ∧ u.clock.micros = u.reading.toNat % microsPerDay :=
  isValid_ofMicros (Nat.mod_lt _ (by decide))

/-- The microsecond of a moment's clock leaves what its reading leaves. -/
theorem micro_clock_mod (u : Moment) {k : Nat} (hk : k ∣ microsPerSecond) :
    u.clock.micro % k = u.reading.toNat % k := by
  have hday : microsPerSecond ∣ microsPerDay := Nat.dvd_mul_left _ _
  show u.reading.toNat % microsPerDay % microsPerSecond % k = _
  rw [Nat.mod_mod_of_dvd _ hday, Nat.mod_mod_of_dvd _ hk]

/-- The date and the time of day of a moment give the moment back, to the unit that the microseconds
are rounded down to. -/
theorem ofParts?_rounded {u : Moment} (h : IsUtc u) {k : Nat} (hk : k ∣ microsPerSecond) :
    ofParts? u.date { u.clock with micro := u.clock.micro - u.clock.micro % k } (some 0) =
      some { u with reading := u.reading - u.reading % k } := by
  obtain ⟨hdate, hnumber⟩ := isValid_date h
  obtain ⟨hclock, hmicros⟩ := isValid_clock u
  obtain ⟨hzone, hlow, -⟩ := h
  have hmod := micro_clock_mod u hk
  have hle : u.reading.toNat % k ≤ u.clock.micro := hmod ▸ Nat.mod_le _ _
  have hrounded : ((u.reading.toNat % k : Nat) : Int) = u.reading % k := by
    rw [Int.natCast_emod, Int.toNat_of_nonneg hlow]
  have hvalid :
      Clock.isValid { u.clock with micro := u.clock.micro - u.clock.micro % k } = true := by
    unfold Clock.isValid at *
    simp only [Bool.and_eq_true, decide_eq_true_eq] at hclock ⊢
    exact ⟨hclock.1, Nat.lt_of_le_of_lt (Nat.sub_le _ _) hclock.2⟩
  have hsum : Clock.micros { u.clock with micro := u.clock.micro - u.clock.micro % k } =
      u.clock.micros - u.reading.toNat % k := by
    rw [hmod]
    unfold Clock.micros
    dsimp only
    omega
  have hsmall : u.reading.toNat % k ≤ u.clock.micros :=
    Nat.le_trans hle (Nat.le_add_left _ _)
  have hreading : (((u.date.number - 1) * microsPerDay + (u.clock.micros - u.reading.toNat % k) :
      Nat) : Int) = u.reading - u.reading % k := by
    rw [← hrounded, hnumber]
    rw [hmicros] at hsmall ⊢
    unfold microsPerDay microsPerSecond at *
    omega
  unfold ofParts?
  rw [hdate, hvalid, hsum, if_pos (by rfl), hreading, hzone]

theorem ofParts?_kept {u : Moment} (h : IsUtc u) :
    ofParts? u.date (IsoReader.kept u.clock) (some 0) = some u.toMillis := by
  have hkept : u.clock.micro / 1000 * 1000 = u.clock.micro - u.clock.micro % 1000 := by omega
  unfold IsoReader.kept
  rw [hkept, ofParts?_rounded h (by decide)]
  rfl

end Moment

namespace Timestamp

/-- A moment is written as the clock in UTC shows it. -/
theorem write?_of_utc? {m u : Moment} (h : m.utc? = some u) (f : TimestampFormat) :
    write? f m = some (String.ofList (u.textIn f)) := by
  unfold write?
  rw [h]
  rfl

/-- The characters of a date-time in front of its `Z`. -/
def stampChars : List Char := "0123456789:.-T".toList

theorem stamp_char : ∀ c ∈ stampChars, Text.isAscii c = true ∧ Text.upperAscii c = c ∧
    Text.isBlank c = false ∧ c ≠ 'Z' :=
  List.all_iff_forall_prop.mp (by decide)

section

variable {s : List Char}

theorem upper_stamp (hs : ∀ c ∈ s, c ∈ stampChars) : Text.upper (s ++ ['Z']) = s ++ ['Z'] := by
  have hchar : ∀ c ∈ s ++ ['Z'], Text.isAscii c = true ∧ Text.upperAscii c = c := by
    intro c hc
    rcases List.mem_append.mp hc with h | h
    · exact ⟨(stamp_char c (hs c h)).1, (stamp_char c (hs c h)).2.1⟩
    · rw [List.mem_singleton.mp h]
      decide
  rw [Text.upper_of_isAscii fun c hc => (hchar c hc).1]
  exact (List.map_congr_left fun c hc => (hchar c hc).2).trans (List.map_id _)

theorem spellOffset_stamp (hs : ∀ c ∈ s, c ∈ stampChars) :
    spellOffset (s ++ ['Z']) = s ++ "+00:00".toList := by
  have hself := flatMap_of_no_zulu fun c hc => (stamp_char c (hs c hc)).2.2.2
  unfold spellOffset
  rw [upper_stamp hs, List.flatMap_append, hself]
  rfl

theorem carriesOffset_stamp (hs : ∀ c ∈ s, c ∈ stampChars) :
    carriesOffset (s ++ ['Z']) = true := by
  unfold carriesOffset
  rw [upper_stamp hs, List.getLast?_append]
  rfl

theorem trim_stamp (hs : ∀ c ∈ s, c ∈ stampChars) :
    Text.trim Text.isBlank (s ++ ['Z']) = s ++ ['Z'] := by
  refine Text.trim_of_forall_not fun c hc => ?_
  rcases List.mem_append.mp hc with h | h
  · exact (stamp_char c (hs c h)).2.2.1
  · rw [List.mem_singleton.mp h]
    decide

end

theorem mem_stamp {d : Date} {c : Moment.Clock} {x : Char}
    (hx : x ∈ IsoReader.dateChars d ++ 'T' :: IsoReader.clockChars c) : x ∈ stampChars := by
  have hdigit : ∀ {k n}, x ∈ Text.padded k n → x ∈ stampChars := fun h =>
    List.mem_append_left [':', '.', '-', 'T'] (Text.mem_digits (Text.isDigitAscii_of_mem_padded h))
  rcases List.mem_append.mp hx with h | h
  · unfold IsoReader.dateChars at h
    simp only [List.mem_append, List.mem_cons] at h
    rcases h with h | rfl | h | rfl | h
    · exact hdigit h
    · decide
    · exact hdigit h
    · decide
    · exact hdigit h
  · rcases List.mem_cons.mp h with rfl | h
    · decide
    · exact List.mem_append_left ['-', 'T'] (IsoReader.mem_clockChars h)

theorem dateTimeText_eq {u : Moment} (hyear : 1000 ≤ u.date.year) : u.dateTimeText =
    IsoReader.dateChars u.date ++ 'T' :: IsoReader.clockChars u.clock ++ ['Z'] := by
  have hpadded : Text.padded 4 u.date.year = Text.ofNat u.date.year :=
    Text.padded_of_length hyear (by decide)
  simp [Moment.dateTimeText, IsoReader.dateChars, IsoReader.clockChars, Moment.two, hpadded]

/-- A date-time is read as the instant that it was written for, rounded down to milliseconds. The
year has four digits, since writing puts no zeros in front of it. -/
theorem read_dateTimeText {u : Moment} (h : u.IsUtc) (hyear : 1000 ≤ u.date.year) :
    read .dateTime (String.ofList u.dateTimeText) = .ok u.toMillis := by
  have hdate := (Moment.isValid_date h).1
  have hclock := (Moment.isValid_clock u).1
  have hstamp : ∀ x ∈ IsoReader.dateChars u.date ++ 'T' :: IsoReader.clockChars u.clock,
      x ∈ stampChars := fun _ => mem_stamp
  have hread := IsoReader.read_written hdate hclock
  unfold read
  dsimp only
  rw [String.toList_ofList, dateTimeText_eq hyear, trim_stamp hstamp]
  unfold readDateTime
  rw [carriesOffset_stamp hstamp, Bool.not_true, if_neg Bool.false_ne_true,
    spellOffset_stamp hstamp, List.append_assoc, List.cons_append, hread, Moment.ofParts?_kept h]
  dsimp only
  unfold toUtc
  rw [h.toMillis.utc?_eq]

end Timestamp

/-! ## Whole seconds since the epoch -/

namespace Moment

/-- A moment on a full second, by its distance from the epoch. -/
theorem exists_seconds {u : Moment} (h : IsUtc u) (hfull : u.reading % microsPerSecond = 0) :
    ∃ s : Int, s.natAbs < 2 ^ 52 ∧ u.reading = epoch + s * microsPerSecond := by
  obtain ⟨-, hlow, hhigh⟩ := h
  refine ⟨(u.reading - epoch) / microsPerSecond, ?_, ?_⟩
  · unfold limit epoch epochDay microsPerDay microsPerSecond at *
    omega
  · unfold epoch epochDay microsPerDay microsPerSecond at *
    omega

theorem epochSeconds_of_full {u : Moment} {s : Int} (hs : s.natAbs < 2 ^ 52)
    (hreading : u.reading = epoch + s * microsPerSecond) :
    u.epochSeconds = .ofWhole (decide (s < 0)) s.natAbs := by
  have hsmall : s.natAbs < 2 ^ 53 := Nat.lt_trans hs (by decide)
  have hdistance : u.reading - epoch = s * microsPerSecond := by omega
  have hsign : decide (s * (microsPerSecond : Int) < 0) = decide (s < 0) := by
    unfold microsPerSecond
    rw [decide_eq_decide]
    omega
  have hsize : (s * (microsPerSecond : Int)).natAbs = s.natAbs * microsPerSecond :=
    Int.natAbs_mul _ _
  unfold epochSeconds
  dsimp only
  rw [hdistance, hsign, hsize, Double.ofRatio_mul _ hsmall (by decide),
    Double.roundPlaces_ofWhole 3 _ hsmall]

theorem signed_natAbs (s : Int) : signed (decide (s < 0)) s.natAbs = s := by
  unfold signed
  by_cases h : s < 0
  · rw [decide_eq_true h, if_pos rfl]
    omega
  · rw [decide_eq_false h, if_neg Bool.false_ne_true]
    omega

/-- A full second is written as the digits of its distance. -/
theorem epochText_of_full {u : Moment} {s : Int} (hs : s.natAbs < 2 ^ 52)
    (hreading : u.reading = epoch + s * microsPerSecond) : u.epochText = Whole.digits s := by
  have hsmall : s.natAbs < 2 ^ 53 := Nat.lt_trans hs (by decide)
  unfold epochText
  dsimp only
  rw [epochSeconds_of_full hs hreading, Double.isWhole_ofWhole _ hsmall, if_pos rfl,
    Double.truncate?_ofWhole _ hsmall]
  exact congrArg Whole.digits (signed_natAbs s)

theorem fractionMicros_zero (den : Nat) : fractionMicros 0 den = 0 := by
  have hround : ∀ k, Double.roundQuotient 0 (Nat.pow 2 k) = 0 := by
    intro k
    have hpos : 0 < Nat.pow 2 k := Nat.pow_pos (by decide)
    have hmul := Double.roundQuotient_mul 0 hpos
    rwa [Nat.zero_mul] at hmul
  unfold fractionMicros Double.ofRatio
  rw [Nat.zero_mul, if_pos rfl]
  dsimp only [Double.ratio]
  rw [Nat.zero_mul]
  exact hround _

/-- The double of a full second is read as that second. -/
theorem ofSeconds_of_full {u : Moment} (h : IsUtc u) {s : Int} (hs : s.natAbs < 2 ^ 52)
    (hreading : u.reading = epoch + s * microsPerSecond) :
    ofSeconds (.ofWhole (decide (s < 0)) s.natAbs) = .ok u := by
  obtain ⟨m, q, d, hfinite, hd, hratio⟩ :=
    Double.exists_ratio_ofWhole (decide (s < 0)) (Nat.lt_trans hs (by decide))
  have hmicros : signed (decide (s < 0)) 0 = 0 := by
    unfold signed
    split <;> rfl
  have hclock : ¬ (s < -maxSecond - 1 ∨ maxSecond < s) := by
    unfold maxSecond
    omega
  obtain ⟨hzone, hlow, hhigh⟩ := h
  rw [hfinite, ofSeconds_finite, hratio]
  dsimp only
  rw [Nat.mul_div_cancel _ hd, Nat.mul_mod_left, fractionMicros_zero, signed_natAbs, hmicros,
    if_neg hclock]
  unfold ofEpoch
  dsimp only
  rw [Int.add_zero, ← hreading, if_pos]
  · rw [← hzone]
  · rw [Bool.and_eq_true, decide_eq_true_eq, decide_eq_true_eq]
    exact ⟨hlow, hhigh⟩

end Moment

end Wireform
