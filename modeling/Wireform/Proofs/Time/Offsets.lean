import Wireform.Proofs.Time.Spelling

/-
  Wireform date-times: which of the texts that are read carry an offset. The guard in front of the
  reading looks for a sign from the mark on, and each `Z` is read as an offset of zero, also where no
  offset can stand.
-/

namespace Wireform.Timestamp

open IsoReader (isSign)
open Moment (Clock)

/-! ## The parts of a date-time -/

/-- A date, the character behind it, a time of day and the zone: the text from the first sign or `Z`
behind the mark on. -/
structure Stamp where
  date : List Char
  mark : Char
  clock : List Char
  zone : List Char
  deriving DecidableEq, Repr

/-- Whether a zone is one offset: a sign with what stands behind it, or a single `Z`. -/
def isOffset : List Char → Bool
  | [] => false
  | c :: r => !isZulu c || r.isEmpty

/-- The offset that a zone names. -/
def zoneOffset? : List Char → Option Int
  | [] => none
  | c :: r =>
    if isZulu c then if r.isEmpty then some 0 else none
    else IsoReader.readOffset (spellOffset (c :: r))

namespace Stamp

/-- The instant that date, time of day and offset tell. -/
def told? (t : Stamp) : Option Moment :=
  if (spellChar t.mark).length = 1 then do
    let d ← IsoReader.readDate (spellOffset t.date)
    let (c, _) ← IsoReader.readClock (spellOffset t.clock)
    let o ← zoneOffset? t.zone
    (← Moment.ofParts? d c (some o)).utc?
  else none

/-- The time of day where no offset stands behind it; a `Z` right behind the date stands for
midnight. -/
def bareClock? (t : Stamp) : Option Clock :=
  if isZulu t.mark then if t.clock = [] then some ⟨0, 0, 0, 0⟩ else none
  else do
    let (c, complete) ← IsoReader.readClock (spellOffset t.clock)
    if complete then some c else none

/-- The instant of date and time of day if they are taken as UTC. -/
def assumed? (t : Stamp) : Option Moment := do
  let d ← IsoReader.readDate (spellOffset t.date)
  let c ← t.bareClock?
  (← Moment.ofParts? d c (some 0)).utc?

/-- Whether the offset stands where it belongs: behind the time of day and not at the mark. -/
def offsetInPlace (t : Stamp) : Bool := !isZulu t.mark && isOffset t.zone

end Stamp

variable {s r : List Char} {t : Stamp} {l m : Moment}

/-- The parts of a text, cut where the reader cuts it. -/
def cut? (s : List Char) : Option Stamp :=
  let n := IsoReader.dateLength (spellOffset s)
  match s.drop n with
  | [] => none
  | mark :: r =>
    if spellOffset (s.take n) = (spellOffset s).take n then
      some ⟨s.take n, mark, r.takeWhile fun c => !opensZone c, r.dropWhile fun c => !opensZone c⟩
    else none

/-- How a text is cut. -/
structure Stamp.Of (t : Stamp) (s : List Char) : Prop where
  chars : t.date ++ t.mark :: (t.clock ++ t.zone) = s
  date : spellOffset t.date = (spellOffset s).take (IsoReader.dateLength (spellOffset s))
  clock : ∀ c ∈ t.clock, opensZone c = false
  zone : ∀ c ∈ t.zone.head?, opensZone c = true

theorem of_cut? (h : cut? s = some t) : t.Of s := by
  unfold cut? at h
  dsimp only at h
  split at h
  · cases h
  · next mark r hdrop =>
    split at h
    · next hdate =>
      cases h
      refine ⟨?_, hdate, fun c hc => ?_, fun c hc => ?_⟩
      · dsimp only
        rw [List.takeWhile_append_dropWhile, ← hdrop, List.take_append_drop]
      · have hplain := List.mem_takeWhile_imp hc
        exact (Bool.not_eq_true' _).mp hplain
      · have hstop := List.head?_dropWhile_not (fun c => !opensZone c) r
        dsimp only at hc
        rw [Option.mem_def.mp hc] at hstop
        exact (Bool.not_eq_false' _).mp hstop
    · cases h

theorem cut?_append {p : List Char} {mark : Char}
    (hlength : p.length = IsoReader.dateLength (spellOffset (p ++ mark :: r)))
    (hp : spellOffset p = (spellOffset (p ++ mark :: r)).take p.length) :
    ∃ t, cut? (p ++ mark :: r) = some t ∧ t.date = p ∧ t.mark = mark ∧ t.clock ++ t.zone = r := by
  refine ⟨⟨p, mark, r.takeWhile fun c => !opensZone c, r.dropWhile fun c => !opensZone c⟩, ?_, rfl,
    rfl, List.takeWhile_append_dropWhile⟩
  unfold cut?
  dsimp only
  rw [← hlength, List.drop_left, List.take_left]
  exact if_pos hp

/-! ## The guard -/

theorem getLast?_upper (s : List Char) :
    (Text.upper s).getLast? = some 'Z' ↔ ∃ c ∈ s.getLast?, isZulu c = true := by
  have hchar : ∀ c, (Text.upperChar c).getLast? = some 'Z' ↔ isZulu c = true := by
    intro c
    cases hc : Text.isAscii c with
    | true =>
      exact Text.forall_ascii (p := fun c => (Text.upperChar c).getLast? = some 'Z' ↔
        isZulu c = true) (by decide +kernel) hc
    | false =>
      rw [isZulu_of_outside hc]
      refine iff_of_false (fun hz => ?_) Bool.false_ne_true
      exact (Text.mem_upperChar_outside hc (List.mem_of_getLast? hz) rfl).2 rfl
  rcases List.eq_nil_or_concat' s with rfl | ⟨s, c, rfl⟩
  · simp [Text.upper]
  · have hupper : Text.upper (s ++ [c]) = Text.upper s ++ Text.upperChar c := by
      unfold Text.upper
      rw [List.flatMap_append, List.flatMap_singleton]
    rw [hupper, List.getLast?_append_of_ne_nil _ (Text.upperChar_ne_nil c), hchar,
      List.getLast?_concat]
    simp

theorem carriesOffset_iff (s : List Char) : carriesOffset s = true ↔
    (∃ c ∈ s.getLast?, isZulu c = true) ∨ ∃ c ∈ s.drop 10, isSign c = true := by
  unfold carriesOffset isSign
  rw [Bool.or_eq_true, Bool.or_eq_true, decide_eq_true_eq, getLast?_upper, or_assoc]
  refine or_congr_right ?_
  simp only [List.contains_iff_mem, Bool.or_eq_true, decide_eq_true_eq, and_or_left, exists_or,
    exists_eq_right]

theorem readDateTime_eq_ok : readDateTime s = .ok m ↔ carriesOffset s = true ∧
    ∃ l, IsoReader.read (spellOffset s) = some l ∧ l.utc? = some m := by
  unfold readDateTime
  cases carriesOffset s with
  | false => simp
  | true =>
    cases IsoReader.read (spellOffset s) with
    | none => simp
    | some l =>
      simp only [Bool.not_true, if_neg Bool.false_ne_true, true_and, Option.some.injEq,
        exists_eq_left']
      unfold toUtc
      cases l.utc? <;> simp

/-! ## Reading the parts -/

/-- What the reader makes of a text that it reads and that has something behind its date. -/
structure Stamp.ReadAs (t : Stamp) (l : Moment) : Prop where
  isDate : IsoReader.IsDateText (spellOffset t.date)
  read : ∃ d c o x r, IsoReader.readDate (spellOffset t.date) = some d ∧
    spellChar t.mark ++ (spellOffset t.clock ++ spellOffset t.zone) = x :: r ∧
    IsoReader.readTime r = some (c, o) ∧ Moment.ofParts? d c o = some l

/-- A text that passes the guard does not end behind its date. -/
theorem exists_cut (hguard : carriesOffset s = true) (h : IsoReader.read (spellOffset s) = some l) :
    ∃ t, cut? s = some t ∧ t.ReadAs l := by
  obtain ⟨hlong, d, hd, hrest⟩ := IsoReader.read_eq_some h
  have hdate := IsoReader.isDateText_of_readDate hd
  obtain ⟨p, q, rfl, hp, hq, hlength⟩ :=
    exists_prefix (List.take_append_drop _ _).symm hdate.plain hdate.getLast?_ne
  rcases hrest with hdrop | ⟨x, r, c, o, hdrop, htime, hparts⟩
  · -- a date alone has neither a `Z` nor an eleventh character
    rw [spellOffset_eq_nil (hq.trans hdrop), List.append_nil] at hguard
    exfalso
    rcases (carriesOffset_iff p).mp hguard with ⟨c, hc, hz⟩ | ⟨c, hc, -⟩
    · rw [not_isZulu_of_isDateText (hp ▸ hdate) (List.mem_of_getLast? hc)] at hz
      cases hz
    · have hshort := hdate.short
      rw [List.drop_of_length_le (by omega)] at hc
      cases hc
  · have hcut : p.length = IsoReader.dateLength (spellOffset (p ++ q)) := by
      have hbehind := congrArg List.length hdrop
      rw [List.length_drop, List.length_cons] at hbehind
      rw [hlength, List.length_take]
      omega
    cases q with
    | nil =>
      rw [hdrop] at hq
      cases hq
    | cons mark q =>
      obtain ⟨t, ht, rfl, rfl, rfl⟩ := cut?_append hcut (hcut ▸ hp)
      refine ⟨t, ht, hp ▸ hdate, d, c, o, x, r, hp ▸ hd, ?_, htime, hparts⟩
      rw [← hdrop, ← hq, spellOffset_cons, spellOffset_append]

namespace Stamp

theorem Of.zone_sign (h : t.Of s) : ∀ c ∈ (spellOffset t.zone).head?, isSign c = true := by
  intro c hc
  cases hzone : t.zone with
  | nil =>
    rw [hzone] at hc
    cases hc
  | cons z zs =>
    obtain ⟨x, r, hspell, hsign⟩ := exists_sign_spellChar (h.zone z (by rw [hzone]; rfl))
    rw [hzone, spellOffset_cons, hspell] at hc
    cases hc
    exact hsign

/-- The spelled text behind the date. -/
theorem Of.drop_eq (h : t.Of s) :
    (spellOffset s).drop (IsoReader.dateLength (spellOffset s)) =
      spellChar t.mark ++ (spellOffset t.clock ++ spellOffset t.zone) := by
  have htext : spellOffset s = spellOffset t.date ++
      (spellChar t.mark ++ (spellOffset t.clock ++ spellOffset t.zone)) := by
    rw [← h.chars, spellOffset_append, spellOffset_cons, spellOffset_append]
  have hsplit := List.take_append_drop (IsoReader.dateLength (spellOffset s)) (spellOffset s)
  rw [← h.date] at hsplit
  exact List.append_cancel_left (hsplit.trans htext)

/-- Time of day and zone as the reader takes them. -/
theorem Of.readTime_eq (h : t.Of s) :
    IsoReader.readTime (spellOffset t.clock ++ spellOffset t.zone) =
      (IsoReader.readClock (spellOffset t.clock)).bind fun (c, complete) =>
        if spellOffset t.zone = [] then if complete then some (c, none) else none
        else (IsoReader.readOffset (spellOffset t.zone)).map fun o => (c, some o) :=
  IsoReader.readTime_append (fun _ hc => not_isSign_of_mem_spellOffset h.clock hc) h.zone_sign

/-- A mark that is no `Z` is spelled as one character if a time of day stands behind it. -/
theorem spellChar_mark {x : Char} {r w : List Char} {y : Clock × Option Int}
    (hmark : isZulu t.mark = false) (h : spellChar t.mark ++ w = x :: r)
    (htime : IsoReader.readTime r = some y) : spellChar t.mark = [x] ∧ r = w := by
  obtain ⟨a, u, hspell⟩ := List.exists_cons_of_ne_nil (spellChar_ne_nil t.mark)
  rw [hspell, List.cons_append, List.cons.injEq] at h
  obtain ⟨rfl, rfl⟩ := h
  have hnil : u = [] := by
    cases hc : Text.isAscii t.mark with
    | true =>
      unfold spellChar at hspell
      rw [hmark, if_neg Bool.false_ne_true, Text.upperChar_of_isAscii hc] at hspell
      exact (List.cons.inj hspell).2.symm
    | false =>
      -- the next character would have to be the first digit of the time of day
      cases u with
      | nil => rfl
      | cons e u =>
        obtain ⟨ds, r, hds, heq⟩ := IsoReader.exists_digits_of_readTime htime
        cases hds with
        | cons hplace _ =>
          have he := (List.cons.inj heq).1
          subst he
          rw [spellChar_outside hc] at hspell
          have hdigit := Text.digit_char hplace
          have hupper := (Text.mem_upperChar_outside hc
            (hspell ▸ List.mem_cons_of_mem a List.mem_cons_self) hdigit.1).1
          rw [hdigit.2.1] at hupper
          cases hupper
  rw [hspell, hnil]
  exact ⟨rfl, rfl⟩

end Stamp

theorem zoneOffset?_eq (zone : List Char) : zoneOffset? zone =
    if isOffset zone then IsoReader.readOffset (spellOffset zone) else none := by
  cases zone with
  | nil => rfl
  | cons c r =>
    have hplace : isOffset (c :: r) = (!isZulu c || r.isEmpty) := rfl
    rw [hplace, zoneOffset?]
    cases hc : isZulu c with
    | false => rfl
    | true =>
      cases r with
      | nil =>
        have hzero : IsoReader.readOffset "+00:00".toList = some 0 := by decide +kernel
        have hspell : spellOffset [c] = "+00:00".toList := by
          rw [spellOffset_cons, spellChar_of_isZulu hc]
          rfl
        rw [hspell, hzero]
        rfl
      | cons d r => rfl

theorem spellOffset_ne_nil {zone : List Char} (h : isOffset zone = true) : spellOffset zone ≠ [] := by
  intro hnil
  rw [spellOffset_eq_nil hnil] at h
  cases h

/-- A reading without an offset is taken as UTC. -/
theorem utc?_of_no_offset {d : Date} {c : Clock} (h : Moment.ofParts? d c none = some l) :
    (Moment.ofParts? d c (some 0)).bind Moment.utc? = l.utc? := by
  have hsame : (Moment.ofParts? d c (some 0)).bind Moment.utc? =
      (Moment.ofParts? d c none).bind Moment.utc? := by
    unfold Moment.ofParts?
    split <;> rfl
  rw [hsame, h]
  rfl

namespace Stamp

/-- The parts of an instant that is told. -/
theorem told?_eq_some : t.told? = some m ↔ (spellChar t.mark).length = 1 ∧
    ∃ d c complete o l, IsoReader.readDate (spellOffset t.date) = some d ∧
      IsoReader.readClock (spellOffset t.clock) = some (c, complete) ∧
      zoneOffset? t.zone = some o ∧ Moment.ofParts? d c (some o) = some l ∧ l.utc? = some m := by
  unfold told?
  split
  · next hmark =>
    simp only [hmark, true_and, Option.bind_eq_bind, Option.bind_eq_some_iff, Prod.exists,
      exists_and_left]
  · next hmark => exact iff_of_false (fun h => by cases h) fun h => hmark h.1

/-- With an offset in its place, the text tells what is read. -/
theorem ReadAs.told (ht : t.Of s) (h : t.ReadAs l) (hm : l.utc? = some m)
    (hplace : t.offsetInPlace = true) : t.told? = some m := by
  obtain ⟨-, d, c, o, x, r, hd, htail, htime, hparts⟩ := h
  unfold offsetInPlace at hplace
  rw [Bool.and_eq_true, Bool.not_eq_true'] at hplace
  obtain ⟨hmark, hoffset⟩ := hplace
  obtain ⟨hspell, rfl⟩ := spellChar_mark hmark htail htime
  rw [ht.readTime_eq] at htime
  obtain ⟨⟨c', complete⟩, hclock, htime⟩ := Option.bind_eq_some_iff.mp htime
  dsimp only at htime
  rw [if_neg (spellOffset_ne_nil hoffset)] at htime
  obtain ⟨z, hz, heq⟩ := Option.map_eq_some_iff.mp htime
  cases heq
  refine told?_eq_some.mpr ⟨by rw [hspell]; rfl, d, _, complete, z, l, hd, hclock, ?_, hparts, hm⟩
  rw [zoneOffset?_eq, hoffset, if_pos rfl, hz]

/-- With no offset in its place, the text tells nothing. -/
theorem told?_eq_none (h : t.offsetInPlace = false) : t.told? = none := by
  refine Option.eq_none_iff_forall_ne_some.mpr fun m htold => ?_
  obtain ⟨hmark, d, c, complete, o, l, -, -, hzone, -⟩ := told?_eq_some.mp htold
  rcases Bool.and_eq_false_iff.mp h with h | h
  · rw [spellChar_of_isZulu ((Bool.not_eq_false' _).mp h)] at hmark
    cases hmark
  · rw [zoneOffset?_eq, h] at hzone
    cases hzone

/-- Without a zone, the guard has seen the mark. -/
theorem Of.mark_of_guard (ht : t.Of s) (hshort : t.date.length ≤ 10)
    (hguard : carriesOffset s = true) (hzone : t.zone = []) :
    isSign t.mark = true ∨ isZulu t.mark = true ∧ t.clock = [] := by
  have hplain : ∀ c ∈ t.clock, isSign c = false ∧ isZulu c = false := fun c hc =>
    Bool.or_eq_false_iff.mp (ht.clock c hc)
  have hchars := ht.chars
  rw [hzone, List.append_nil] at hchars
  rcases (carriesOffset_iff s).mp hguard with ⟨c, hc, hz⟩ | ⟨c, hc, hsign⟩
  · right
    rw [← hchars, List.getLast?_append_cons] at hc
    cases hclock : t.clock with
    | nil =>
      rw [hclock] at hc
      cases hc
      exact ⟨hz, rfl⟩
    | cons d r =>
      rw [hclock, List.getLast?_cons_cons, ← hclock] at hc
      rw [(hplain c (List.mem_of_getLast? hc)).2] at hz
      cases hz
  · -- the date has at most ten characters, so the sign is the mark or stands behind it
    left
    rw [← hchars, List.drop_append, List.drop_of_length_le hshort, List.nil_append] at hc
    rcases List.mem_cons.mp (List.mem_of_mem_drop hc) with rfl | hc
    · exact hsign
    · rw [(hplain c hc).1] at hsign
      cases hsign

/-- Without a zone, UTC is assumed. -/
theorem ReadAs.assumed (ht : t.Of s) (h : t.ReadAs l) (hm : l.utc? = some m)
    (hguard : carriesOffset s = true) (hzone : t.zone = []) :
    opensZone t.mark = true ∧ t.assumed? = some m := by
  obtain ⟨hdate, d, c, o, x, r, hd, htail, htime, hparts⟩ := h
  have hshort : t.date.length ≤ 10 := length_of_isDateText hdate ▸ hdate.short
  have hassumed : ∀ c, t.bareClock? = some c → Moment.ofParts? d c none = some l →
      t.assumed? = some m := by
    intro c hclock hparts
    unfold assumed?
    rw [hd, hclock, ← hm, ← utc?_of_no_offset hparts]
    rfl
  have hnil : spellOffset t.zone = [] := by rw [hzone]; rfl
  rcases ht.mark_of_guard hshort hguard hzone with hsign | ⟨hmark, hclock⟩
  · have hmark := (spellChar_of_isSign hsign).1
    refine ⟨by unfold opensZone; rw [hsign, Bool.true_or], ?_⟩
    obtain ⟨-, rfl⟩ := spellChar_mark hmark htail htime
    rw [ht.readTime_eq] at htime
    obtain ⟨⟨c', complete⟩, hclock, htime⟩ := Option.bind_eq_some_iff.mp htime
    dsimp only at htime
    rw [if_pos hnil] at htime
    cases complete with
    | false => cases htime
    | true =>
      cases htime
      refine hassumed c ?_ hparts
      unfold bareClock?
      rw [hmark, if_neg Bool.false_ne_true, hclock]
      rfl
  · refine ⟨by unfold opensZone; rw [hmark, Bool.or_true], ?_⟩
    have hmidnight : IsoReader.readTime "00:00".toList = some (⟨0, 0, 0, 0⟩, none) := by
      decide +kernel
    -- what the `Z` is spelled as begins with the mark and goes on with the time of day
    rw [spellChar_of_isZulu hmark, hclock, hnil] at htail
    have hr : r = "00:00".toList := (List.cons.inj htail).2.symm
    rw [hr, hmidnight] at htime
    cases htime
    refine hassumed _ ?_ hparts
    unfold bareClock?
    rw [hmark, if_pos rfl, if_pos hclock]

end Stamp

/-! ## Reading what is told -/

/-- A time of day is at least two characters long. -/
theorem two_le_length {x : Clock × Bool}
    (h : IsoReader.readClock (spellOffset s) = some x) : 2 ≤ s.length := by
  obtain ⟨ds, r, hds, heq⟩ := IsoReader.exists_digits_of_readClock h
  have hdigit : ∀ c ∈ ds, Text.isDigitAscii c = true := by
    intro c hc
    obtain ⟨p, hp, hplace⟩ := hds.exists_place hc
    simp only [List.mem_cons, List.not_mem_nil, or_false, or_self] at hp
    rw [hp] at hplace
    exact hplace
  have hlast : ds.getLast? ≠ some 'W' := by
    intro hw
    cases hdigit 'W' (List.mem_of_getLast? hw)
  obtain ⟨p, q, rfl, -, -, hlength⟩ := exists_prefix heq (fun c hc => Or.inl (hdigit c hc)) hlast
  have htwo := hds.length_eq
  rw [List.length_append, hlength, ← htwo]
  exact Nat.le_add_right 2 _

namespace Stamp

/-- A zone that is an offset stands far enough behind for the guard. -/
theorem Of.guard (ht : t.Of s) (hdate : IsoReader.IsDateText (spellOffset t.date))
    {x : Clock × Bool} (hclock : IsoReader.readClock (spellOffset t.clock) = some x)
    (hzone : isOffset t.zone = true) : carriesOffset s = true := by
  have hlong : 7 ≤ t.date.length := length_of_isDateText hdate ▸ hdate.long
  have htwo : 2 ≤ t.clock.length := two_le_length hclock
  have hchars := ht.chars
  have hopens := ht.zone
  refine (carriesOffset_iff s).mpr ?_
  rw [← hchars]
  cases hz : t.zone with
  | nil =>
    rw [hz] at hzone
    cases hzone
  | cons z r =>
    rw [hz] at hzone hopens
    rcases Bool.or_eq_true_iff.mp (hopens z rfl) with hsign | hzulu
    · right
      refine ⟨z, ?_, hsign⟩
      rw [← List.cons_append, ← List.append_assoc, List.drop_append]
      refine List.mem_append_right _ ?_
      have hzero : 10 - (t.date ++ t.mark :: t.clock).length = 0 := by
        rw [List.length_append, List.length_cons]
        omega
      rw [hzero]
      exact List.mem_cons_self
    · left
      have hnil : r = [] := by
        have hplace : (!isZulu z || r.isEmpty) = true := hzone
        rw [hzulu, Bool.not_true, Bool.false_or] at hplace
        exact List.isEmpty_iff.mp hplace
      refine ⟨z, ?_, hzulu⟩
      rw [hnil, ← List.cons_append, ← List.append_assoc, List.getLast?_concat]
      rfl

end Stamp

/-- The instant that a text tells is the one that is read. -/
theorem readDateTime_of_told (ht : cut? s = some t) (htold : t.told? = some m) :
    readDateTime s = .ok m := by
  obtain ⟨hmark, d, c, complete, o, l, hd, hclock, hoffset, hparts, hm⟩ :=
    Stamp.told?_eq_some.mp htold
  obtain ⟨x, hspell⟩ := List.length_eq_one_iff.mp hmark
  have hof := of_cut? ht
  have hdate : IsoReader.IsDateText (spellOffset t.date) :=
    hof.date ▸ IsoReader.isDateText_of_readDate (hof.date ▸ hd)
  rw [zoneOffset?_eq] at hoffset
  split at hoffset
  · next hplace =>
    have htime : IsoReader.readTime (spellOffset t.clock ++ spellOffset t.zone) =
        some (c, some o) := by
      rw [hof.readTime_eq, hclock, Option.bind_some]
      dsimp only
      rw [if_neg (spellOffset_ne_nil hplace), hoffset]
      rfl
    have hdrop := hof.drop_eq
    rw [hspell] at hdrop
    have hlong : 7 ≤ (spellOffset s).length := by
      have hseven := hdate.long
      rw [hof.date, List.length_take] at hseven
      omega
    refine readDateTime_eq_ok.mpr ⟨hof.guard hdate hclock hplace, l, ?_, hm⟩
    rw [IsoReader.read_of_parts hlong (hof.date ▸ hd) hdrop htime, hparts]
  · cases hoffset

/-! ## What is read and what is told -/

/-- A text that is read as a date-time has a mark behind its date. It tells the instant that is read
exactly when an offset stands where it belongs; and where no zone stands behind the time of day, the
mark is a sign or a `Z`, and UTC is assumed. -/
theorem dateTime_told {text : String} (h : read .dateTime text = .ok m) :
    ∃ t, cut? (Text.trim Text.isBlank text.toList) = some t ∧
      (t.told? = if t.offsetInPlace then some m else none) ∧
      (t.zone = [] → opensZone t.mark = true ∧ t.assumed? = some m) := by
  have htrimmed : readDateTime (Text.trim Text.isBlank text.toList) = .ok m := h
  obtain ⟨hguard, l, hread, hm⟩ := readDateTime_eq_ok.mp htrimmed
  obtain ⟨t, ht, hreadAs⟩ := exists_cut hguard hread
  have hof := of_cut? ht
  refine ⟨t, ht, ?_, fun hzone => hreadAs.assumed hof hm hguard hzone⟩
  cases hplace : t.offsetInPlace with
  | true => exact hreadAs.told hof hm hplace
  | false => exact Stamp.told?_eq_none hplace

theorem dateTime_told_east : read .dateTime "2019-12-16T23:48:18+05:30" =
    .ok ⟨Moment.epoch + 1576520298 * Moment.microsPerSecond, some 0⟩ ∧
    ∃ t, cut? (Text.trim Text.isBlank "2019-12-16T23:48:18+05:30".toList) = some t ∧
      (t.told? = if t.offsetInPlace then
        some ⟨Moment.epoch + 1576520298 * Moment.microsPerSecond, some 0⟩ else none) ∧
      (t.zone = [] → opensZone t.mark = true ∧
        t.assumed? = some ⟨Moment.epoch + 1576520298 * Moment.microsPerSecond, some 0⟩) :=
  have hread : read .dateTime "2019-12-16T23:48:18+05:30" =
      .ok ⟨Moment.epoch + 1576520298 * Moment.microsPerSecond, some 0⟩ := by decide +kernel
  ⟨hread, dateTime_told hread⟩

example : (cut? "2019-12-16Z".toList).bind Stamp.assumed? =
    some ⟨Moment.epoch + 1576454400 * Moment.microsPerSecond, some 0⟩ := by decide +kernel

/-- A dash for a mark passes the guard, and the text tells nothing. -/
theorem not_every_offset_told : ¬ ∀ text m, read .dateTime text = .ok m →
    ∃ t, cut? (Text.trim Text.isBlank text.toList) = some t ∧ t.told? = some m := by
  intro hall
  have hread : read .dateTime "2019-12-16-23:48:18" =
      .ok ⟨Moment.epoch + 1576540098 * Moment.microsPerSecond, some 0⟩ := by decide +kernel
  have hcut : cut? (Text.trim Text.isBlank "2019-12-16-23:48:18".toList) =
      some ⟨"2019-12-16".toList, '-', "23:48:18".toList, []⟩ := by decide +kernel
  obtain ⟨t, ht, htold⟩ := hall _ _ hread
  rw [hcut] at ht
  cases ht
  rw [Stamp.told?_eq_none rfl] at htold
  cases htold

end Wireform.Timestamp
