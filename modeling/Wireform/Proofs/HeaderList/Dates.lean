import Wireform.Proofs.Answers
import Wireform.Proofs.Time.MailDate

/-
  Wireform header lists: dates. A line is cut at its commas, and an http-date has a comma of its
  own, so that two parts make one date. What was written for a list is read back, however the list
  is spread over lines.
-/

namespace Wireform.HeaderList

variable {f : TimestampFormat} {t : String} {ts : List String}

/-! ## Parts of a line -/

/-- The parts of a line between its commas. -/
def commaParts (t : String) : List String :=
  (Text.pieces ',' t.toList).map fun p => String.ofList (Text.trim Text.isBlank p)

theorem map_trim_pieces_cons {p : Char → Bool} {c x : Char} (hx : p x = true) (hne : x ≠ c)
    (s : List Char) :
    (Text.pieces c (x :: s)).map (Text.trim p) = (Text.pieces c s).map (Text.trim p) := by
  cases hs : Text.pieces c s with
  | nil => exact absurd hs (Text.pieces_ne_nil c s)
  | cons q qs =>
    rw [Text.pieces_cons_of_ne hne hs, List.map_cons, List.map_cons]
    congr 1
    unfold Text.trim
    rw [List.dropWhile_cons_of_pos hx]

/-- Behind a comma and a space stand the parts of the rest. -/
theorem commaParts_append (t u : String) :
    commaParts (t ++ ", " ++ u) = commaParts t ++ commaParts u := by
  have hchars : (t ++ ", " ++ u).toList = t.toList ++ ',' :: ' ' :: u.toList := by
    rw [String.toList_append, String.toList_append, List.append_assoc]
    rfl
  have htrim : (Text.pieces ',' (' ' :: u.toList)).map (Text.trim Text.isBlank) =
      (Text.pieces ',' u.toList).map (Text.trim Text.isBlank) :=
    map_trim_pieces_cons (by decide) (by decide) u.toList
  have hrest := congrArg (List.map String.ofList) htrim
  rw [List.map_map, List.map_map] at hrest
  unfold commaParts
  rw [hchars, Text.pieces_append_sep, List.map_append]
  exact congrArg _ hrest

theorem commaParts_intercalate (h : ts ≠ []) :
    commaParts (", ".intercalate ts) = ts.flatMap commaParts := by
  induction ts with
  | nil => exact absurd rfl h
  | cons t ts ih =>
    cases ts with
    | nil => rw [String.intercalate_singleton, List.flatMap_cons, List.flatMap_nil, List.append_nil]
    | cons u ts =>
      rw [String.intercalate_cons_cons, commaParts_append, ih (List.cons_ne_nil u ts)]
      rfl

/-- A text without commas and without white space around it is its own part. -/
theorem commaParts_of_whole {s : List Char} (hcomma : ',' ∉ s)
    (htrim : Text.trim Text.isBlank s = s) : commaParts (String.ofList s) = [String.ofList s] := by
  unfold commaParts
  rw [String.toList_ofList, Text.pieces_of_not_mem hcomma, List.map_singleton, htrim]

/-- Whether there is more than white space in a text. -/
def Shown (t : String) : Prop := t.toList.all Text.isBlank = false

theorem shown_of_mem {c : Char} (hc : c ∈ t.toList) (hblank : Text.isBlank c = false) :
    Shown t := by
  unfold Shown
  rw [List.all_eq_false]
  exact ⟨c, hc, by rw [hblank]; exact Bool.false_ne_true⟩

theorem shown_intercalate (h : ts ≠ []) (hts : ∀ t ∈ ts, Shown t) :
    Shown (", ".intercalate ts) := by
  cases ts with
  | nil => exact absurd rfl h
  | cons t ts =>
    have ht : Shown t := hts t List.mem_cons_self
    cases ts with
    | nil => rwa [String.intercalate_singleton]
    | cons u ts =>
      unfold Shown at *
      rw [String.intercalate_cons_cons, String.toList_append, String.toList_append, List.all_append,
        List.all_append, ht]
      rfl

theorem dateParts_cons (ht : Shown t) (lines : List String) :
    dateParts (t :: lines) = commaParts t ++ dateParts lines := by
  have hkept : (!t.toList.all Text.isBlank) = true := by
    rw [ht]
    rfl
  unfold dateParts
  rw [List.filter_cons_of_pos (p := fun v : String => !v.toList.all Text.isBlank) hkept]
  exact List.flatMap_cons

/-- The parts of lines are those of their elements in order. -/
theorem dateParts_lines {groups : List (List String)} (hne : ∀ g ∈ groups, g ≠ [])
    (hshown : ∀ t ∈ groups.flatten, Shown t) :
    dateParts (groups.map fun g => ", ".intercalate g) = groups.flatten.flatMap commaParts := by
  induction groups with
  | nil => rfl
  | cons g groups ih =>
    obtain ⟨hg, hne⟩ := List.forall_mem_cons.mp hne
    rw [List.flatten_cons, List.forall_mem_append] at hshown
    obtain ⟨hgshown, hshown⟩ := hshown
    rw [List.map_cons, dateParts_cons (shown_intercalate hg hgshown), commaParts_intercalate hg,
      ih hne hshown, List.flatten_cons, List.flatMap_append]

/-! ## Parts of dates -/

/-- The text of a date as its parts give it back: an http-date has two of them. -/
inductive DateText : TimestampFormat → String → Prop
  | whole {f : TimestampFormat} {t : String} (hf : f ≠ .httpDate) (h : commaParts t = [t]) :
      DateText f t
  | pair {a b : String} (h : commaParts (a ++ ", " ++ b) = [a, b]) :
      DateText .httpDate (a ++ ", " ++ b)

theorem pairDates_flatMap (h : ∀ t ∈ ts, DateText .httpDate t) :
    pairDates (ts.flatMap commaParts) = some ts := by
  induction ts with
  | nil => rfl
  | cons t ts ih =>
    obtain ⟨ht, hts⟩ := List.forall_mem_cons.mp h
    cases ht with
    | whole hf => exact absurd rfl hf
    | pair hparts =>
      rw [List.flatMap_cons, hparts, List.cons_append, List.cons_append, List.nil_append, pairDates,
        ih hts]
      rfl

theorem flatMap_commaParts (hf : f ≠ .httpDate) (h : ∀ t ∈ ts, DateText f t) :
    ts.flatMap commaParts = ts := by
  induction ts with
  | nil => rfl
  | cons t ts ih =>
    obtain ⟨ht, hts⟩ := List.forall_mem_cons.mp h
    cases ht with
    | whole _ hparts => rw [List.flatMap_cons, hparts, ih hts]; rfl
    | pair => exact absurd rfl hf

/-- The dates of lines are their elements in order. -/
theorem dates?_lines {groups : List (List String)} (hne : ∀ g ∈ groups, g ≠ [])
    (hshown : ∀ t ∈ groups.flatten, Shown t) (hdates : ∀ t ∈ groups.flatten, DateText f t) :
    dates? f (groups.map fun g => ", ".intercalate g) = some groups.flatten := by
  have hparts := dateParts_lines hne hshown
  unfold dates?
  cases f with
  | httpDate =>
    dsimp only
    rw [hparts, pairDates_flatMap hdates]
  | dateTime =>
    dsimp only
    rw [hparts, flatMap_commaParts (by decide) hdates]
  | epochSeconds =>
    dsimp only
    rw [hparts, flatMap_commaParts (by decide) hdates]

/-! ## Written dates -/

/-- Words without commas that are joined by spaces are one part. -/
theorem commaParts_join {ws : List (List Char)} (h : ∀ w ∈ ws, Text.IsWord MailDate.isBreak w) :
    commaParts (String.ofList (Text.join ' ' ws)) = [String.ofList (Text.join ' ' ws)] := by
  refine commaParts_of_whole ?_ (Text.trim_join fun w hw => ?_)
  · intro hcomma
    rcases Text.mem_join hcomma with hspace | ⟨w, hw, hin⟩
    · exact absurd hspace (by decide)
    · exact absurd ((h w hw).inside ',' hin) (by decide)
  · exact (h w hw).imp fun _ => MailDate.not_isBlank_of_not_isBreak

theorem dateText_httpText {u : Moment} (h : u.IsUtc) :
    DateText .httpDate (String.ofList u.httpText) ∧ Shown (String.ofList u.httpText) := by
  have hdate := (Moment.isValid_date h).1
  have hweekday := MailDate.isWord_weekdayWord u.date
  have hshape : String.ofList u.httpText = String.ofList (MailDate.weekdayWord u.date) ++ ", " ++
      String.ofList (Text.join ' ' (MailDate.dateWords u.date u.clock)) := by
    apply String.toList_inj.mp
    rw [MailDate.httpText_eq, MailDate.written_eq]
    simp
  have hleft : commaParts (String.ofList (Text.join ' ' [MailDate.weekdayWord u.date])) =
      [String.ofList (Text.join ' ' [MailDate.weekdayWord u.date])] :=
    commaParts_join (List.forall_mem_singleton.mpr hweekday)
  have hright : commaParts (String.ofList (Text.join ' ' (MailDate.dateWords u.date u.clock))) =
      [String.ofList (Text.join ' ' (MailDate.dateWords u.date u.clock))] :=
    commaParts_join fun w hw => MailDate.isWord_of_mem_dateWords hdate hw
  rw [Text.join] at hleft
  constructor
  · rw [hshape]
    refine .pair ?_
    rw [commaParts_append, hleft, hright, List.singleton_append]
  · obtain ⟨x, r, hx⟩ := List.exists_cons_of_ne_nil hweekday.ne_nil
    have hblank := MailDate.not_isBlank_of_not_isBreak
      (hweekday.inside x (hx ▸ List.mem_cons_self))
    refine shown_of_mem (c := x) ?_ hblank
    rw [String.toList_ofList, MailDate.httpText_eq, MailDate.written_eq, hx]
    exact List.mem_cons_self

theorem dateText_dateTimeText {u : Moment} (hyear : 1000 ≤ u.date.year) :
    DateText .dateTime (String.ofList u.dateTimeText) ∧
      Shown (String.ofList u.dateTimeText) := by
  have hstamp : ∀ x ∈ IsoReader.dateChars u.date ++ 'T' :: IsoReader.clockChars u.clock,
      x ∈ Timestamp.stampChars := fun _ => Timestamp.mem_stamp
  rw [Timestamp.dateTimeText_eq hyear]
  constructor
  · refine .whole (by decide) (commaParts_of_whole ?_ (Timestamp.trim_stamp hstamp))
    intro hcomma
    rcases List.mem_append.mp hcomma with hcomma | hcomma
    · exact absurd (hstamp ',' hcomma) (by decide)
    · cases List.mem_singleton.mp hcomma
  · refine shown_of_mem (c := 'Z') ?_ (by decide)
    rw [String.toList_ofList]
    exact List.mem_append_right _ (List.mem_singleton.mpr rfl)

/-! ## Lists of dates -/

/-- The line that is written for dates. -/
def dateLine? (f : TimestampFormat) (ms : List Moment) : Option String :=
  (ms.mapM (Timestamp.write? f)).map fun ts => ", ".intercalate ts

/-- What comes back of a moment that is written and read on its own. -/
def returned? (f : TimestampFormat) (m : Moment) : Option Moment :=
  (Timestamp.write? f m).bind fun t => (Timestamp.read f t).toOption

/-- A moment is written as a text that a line keeps, and read from it. -/
structure Travels (f : TimestampFormat) (m : Moment) (x : String × Moment) : Prop where
  written : Timestamp.write? f m = some x.1
  kept : DateText f x.1
  shown : Shown x.1
  read : Timestamp.read f x.1 = .ok x.2

theorem exists_travels (hf : f ≠ .epochSeconds) {m u : Moment} (hu : m.utc? = some u)
    (hyear : 1000 ≤ u.date.year) : ∃ x, Travels f m x := by
  have hutc := Moment.isUtc_of_utc? hu
  have hwritten := Timestamp.write?_of_utc? hu f
  cases f with
  | dateTime =>
    obtain ⟨hkept, hshown⟩ := dateText_dateTimeText hyear
    exact ⟨(_, _), hwritten, hkept, hshown, Timestamp.read_dateTimeText hutc hyear⟩
  | httpDate =>
    obtain ⟨hkept, hshown⟩ := dateText_httpText hutc
    exact ⟨(_, _), hwritten, hkept, hshown,
      Timestamp.read_httpText hutc (Nat.le_trans (by decide) hyear)⟩
  | epochSeconds => exact absurd rfl hf

theorem Travels.returned {m : Moment} {x : String × Moment} (h : Travels f m x) :
    returned? f m = some x.2 := by
  unfold returned?
  rw [h.written, Option.bind_some, h.read]
  rfl

theorem dateLine?_of_travels {ms : List Moment} {xs : List (String × Moment)}
    (h : List.Forall₂ (Travels f) ms xs) :
    dateLine? f ms = some (", ".intercalate (xs.map Prod.fst)) := by
  have hwritten : ms.mapM (Timestamp.write? f) = some (xs.map Prod.fst) := by
    rw [Outcome.mapM_eq_some, List.forall₂_map_right_iff]
    exact h.imp fun _ _ hx => hx.written
  unfold dateLine?
  rw [hwritten]
  rfl

/-- Lines of dates that travel are read as what these are read as. -/
theorem readDates_of_travels {groups : List (List Moment)} {xss : List (List (String × Moment))}
    (hne : ∀ g ∈ groups, g ≠ []) (h : List.Forall₂ (List.Forall₂ (Travels f)) groups xss) :
    readDates f (xss.map fun xs => ", ".intercalate (xs.map Prod.fst)) =
      .ok (xss.flatten.map Prod.snd) := by
  have htravels : ∀ x ∈ xss.flatten, ∃ m, Travels f m x := fun x hx => by
    obtain ⟨m, -, hm⟩ := Outcome.exists_of_mem_forall₂ (List.rel_flatten h) hx
    exact ⟨m, hm⟩
  have hgroups : ∀ g ∈ xss.map (List.map Prod.fst), g ≠ [] := by
    intro g hg hnil
    obtain ⟨xs, hxs, rfl⟩ := List.mem_map.mp hg
    obtain ⟨ms, hms, hforall⟩ := Outcome.exists_of_mem_forall₂ h hxs
    rw [List.map_eq_nil_iff.mp hnil, List.forall₂_nil_right_iff] at hforall
    exact hne ms hms hforall
  have htexts : ∀ t ∈ (xss.map (List.map Prod.fst)).flatten, DateText f t ∧ Shown t := by
    intro t ht
    rw [← List.map_flatten] at ht
    obtain ⟨x, hx, rfl⟩ := List.mem_map.mp ht
    obtain ⟨m, hm⟩ := htravels x hx
    exact ⟨hm.kept, hm.shown⟩
  have hread : (xss.flatten.map Prod.fst).mapM (Timestamp.read f) =
      .ok (xss.flatten.map Prod.snd) := by
    rw [Outcome.mapM_eq_ok, List.forall₂_map_left_iff, List.forall₂_map_right_iff,
      List.forall₂_same]
    intro x hx
    obtain ⟨m, hm⟩ := htravels x hx
    exact hm.read
  have hdates : dates? f (xss.map fun xs => ", ".intercalate (xs.map Prod.fst)) =
      some (xss.flatten.map Prod.fst) := by
    have h := dates?_lines hgroups (fun t ht => (htexts t ht).2) fun t ht => (htexts t ht).1
    rw [List.map_map, ← List.map_flatten] at h
    exact h
  rw [readDates_eq, hdates]
  exact WireError.wrap_eq_ok.mpr hread

/-- Dates come back from the lines that they are spread over: in order, none left out, and each as
it comes back from its own text. -/
theorem readDates_written (hf : f ≠ .epochSeconds) {groups : List (List Moment)}
    (hne : ∀ g ∈ groups, g ≠ [])
    (hyears : ∀ g ∈ groups, ∀ m ∈ g, ∃ u, m.utc? = some u ∧ 1000 ≤ u.date.year) :
    ∃ lines ms, groups.mapM (dateLine? f) = some lines ∧
      groups.flatten.mapM (returned? f) = some ms ∧ readDates f lines = .ok ms := by
  obtain ⟨xss, hxss⟩ : ∃ xss, List.Forall₂ (List.Forall₂ (Travels f)) groups xss := by
    refine Outcome.exists_forall₂ fun g hg => Outcome.exists_forall₂ fun m hm => ?_
    obtain ⟨u, hu, hyear⟩ := hyears g hg m hm
    exact exists_travels hf hu hyear
  refine ⟨_, _, ?_, ?_, readDates_of_travels hne hxss⟩
  · rw [Outcome.mapM_eq_some, List.forall₂_map_right_iff]
    exact hxss.imp fun _ _ h => dateLine?_of_travels h
  · rw [Outcome.mapM_eq_some, List.forall₂_map_right_iff]
    exact (List.rel_flatten hxss).imp fun _ _ h => h.returned

/-- The epoch, the last second of the year 1999 without an offset, and the second after it. -/
def sampleDates : List (List Moment) :=
  [[⟨Moment.epoch, some 0⟩, ⟨Moment.epoch + 946684799 * 1000000, none⟩],
    [⟨Moment.epoch + 946684800 * 1000000, some 0⟩]]

def sampleLines : List String :=
  ["Thu, 01 Jan 1970 00:00:00 GMT, Fri, 31 Dec 1999 23:59:59 GMT", "Sat, 01 Jan 2000 00:00:00 GMT"]

theorem readDates_two_lines : sampleDates.mapM (dateLine? .httpDate) = some sampleLines ∧
    readDates .httpDate sampleLines = .ok [⟨Moment.epoch, some 0⟩,
      ⟨Moment.epoch + 946684799 * 1000000, some 0⟩,
      ⟨Moment.epoch + 946684800 * 1000000, some 0⟩] := by
  have hlines : sampleDates.mapM (dateLine? .httpDate) = some sampleLines := by decide +kernel
  have hmoments : sampleDates.flatten.mapM (returned? .httpDate) =
      some [⟨Moment.epoch, some 0⟩, ⟨Moment.epoch + 946684799 * 1000000, some 0⟩,
        ⟨Moment.epoch + 946684800 * 1000000, some 0⟩] := by decide +kernel
  obtain ⟨lines, ms, hlines', hms, hread⟩ := readDates_written (f := .httpDate) (by decide)
    (by decide : ∀ g ∈ sampleDates, g ≠ []) (by decide +kernel)
  cases hlines.symm.trans hlines'
  cases hmoments.symm.trans hms
  exact ⟨hlines, hread⟩

end Wireform.HeaderList
