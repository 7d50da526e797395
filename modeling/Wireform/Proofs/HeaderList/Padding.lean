import Wireform.Proofs.HeaderList.RoundTrip
import Wireform.Proofs.Outcome

/-
  Wireform header lists: spaces and tabs around a line. In front of it they change nothing. Behind
  it they change nothing either, unless the line ends in a comma: then the blank text behind the
  comma is an element of its own, and the rule for a comma at the end adds another one
  (`split_padded`). Elements are counted by the commas between them (`length_items`).
-/

namespace Wireform.HeaderList

/-! ## Commas between elements -/

/-- Where a scan of a line stands: before an element, in one without quotes or behind its closing
quote, between quotes, or behind a backslash there. -/
inductive Stand where
  | before
  | bare
  | quoted
  | escaped
  deriving DecidableEq

namespace Stand

/-- Where the scan stands behind one more character. -/
def next : Stand → Char → Stand
  | before, c => if c = '"' then quoted else if Text.isPad c ∨ c = ',' then before else bare
  | bare, c => if c = ',' then before else bare
  | quoted, c => if c = '"' then bare else if c = '\\' then escaped else quoted
  | escaped, _ => quoted

/-- Where the scan stands after a text. -/
def after (st : Stand) (s : List Char) : Stand := s.foldl next st

/-- Whether a comma here ends an element. -/
def isOutside : Stand → Bool
  | before | bare => true
  | quoted | escaped => false

/-- The commas in a text that end elements. -/
def commas : Stand → List Char → Nat
  | _, [] => 0
  | st, c :: r => (if c = ',' ∧ st.isOutside then 1 else 0) + commas (st.next c) r

theorem commas_append (st : Stand) (s t : List Char) :
    st.commas (s ++ t) = st.commas s + (st.after s).commas t := by
  induction s generalizing st with
  | nil => exact (Nat.zero_add _).symm
  | cons c r ih =>
    rw [List.cons_append, commas, commas, ih, Nat.add_assoc]
    rfl

theorem after_append (st : Stand) (s t : List Char) :
    st.after (s ++ t) = (st.after s).after t := List.foldl_append

/-- Outside quotes a comma counts, and the next element follows. -/
theorem commas_comma {st : Stand} (h : st.isOutside = true) (s : List Char) :
    st.commas (',' :: s) = before.commas s + 1 := by
  cases st with
  | before => exact Nat.add_comm _ _
  | bare => exact Nat.add_comm _ _
  | quoted => exact Bool.noConfusion h
  | escaped => exact Bool.noConfusion h

/-- The scan goes from one place to another, and no comma on its way counts. -/
structure Passes (st : Stand) (s : List Char) (st' : Stand) : Prop where
  commas : st.commas s = 0
  after : st.after s = st'

theorem Passes.nil (st : Stand) : st.Passes [] st := ⟨rfl, rfl⟩

theorem Passes.cons {st st' : Stand} {c : Char} {r : List Char}
    (hc : c = ',' → st.isOutside = false) (hr : (st.next c).Passes r st') :
    st.Passes (c :: r) st' := by
  refine ⟨?_, hr.after⟩
  rw [Stand.commas, hr.commas, if_neg]
  rintro ⟨hcomma, hout⟩
  rw [hc hcomma] at hout
  exact Bool.noConfusion hout

theorem Passes.append {st st' st'' : Stand} {s t : List Char} (hs : st.Passes s st')
    (ht : st'.Passes t st'') : st.Passes (s ++ t) st'' := by
  refine ⟨?_, ?_⟩
  · rw [commas_append, hs.commas, hs.after, ht.commas]
  · rw [after_append, hs.after, ht.after]

/-- An element goes on up to its comma. -/
theorem bare_passes {s : List Char} (h : ',' ∉ s) : bare.Passes s bare := by
  induction s with
  | nil => exact .nil bare
  | cons c r ih =>
    obtain ⟨hc, hr⟩ := List.ne_and_not_mem_of_not_mem_cons h
    have hnext : bare.next c = bare := if_neg hc.symm
    refine .cons (fun h => absurd h.symm hc) ?_
    rw [hnext]
    exact ih hr

/-- Before an element the scan passes over spaces and tabs. -/
theorem before_passes {w : List Char} (hw : w.all Text.isPad = true) :
    before.Passes w before := by
  induction w with
  | nil => exact .nil before
  | cons c r ih =>
    rw [List.all_cons, Bool.and_eq_true] at hw
    have hquote : c ≠ '"' := fun h => absurd (h ▸ hw.1) (by decide)
    have hcomma : c ≠ ',' := fun h => absurd (h ▸ hw.1) (by decide)
    have hnext : before.next c = before := (if_neg hquote).trans (if_pos (Or.inl hw.1))
    refine .cons (fun h => absurd h hcomma) ?_
    rw [hnext]
    exact ih hw.2

/-- A text that ends outside quotes, and none of whose commas counts, does not end in a comma. -/
theorem Passes.getLast?_ne {st st' : Stand} {s : List Char} (h : st.Passes s st')
    (hout : st'.isOutside = true) : s.getLast? ≠ some ',' := by
  intro hlast
  obtain ⟨r, rfl⟩ := List.getLast?_eq_some_iff.mp hlast
  have hcommas := h.commas
  have hafter := h.after
  rw [commas_append, Nat.add_eq_zero_iff] at hcommas
  rw [after_append] at hafter
  change (st.after r).next ',' = st' at hafter
  cases hr : st.after r with
  | before => rw [hr] at hcommas; exact absurd hcommas.2 (by decide)
  | bare => rw [hr] at hcommas; exact absurd hcommas.2 (by decide)
  | quoted => rw [hr] at hafter; rw [← hafter] at hout; exact absurd hout (by decide)
  | escaped => rw [hr] at hafter; rw [← hafter] at hout; exact absurd hout (by decide)

/-- A text without commas that does not begin like a quoted element stays outside quotes. -/
theorem before_passes_plain {c : Char} {r : List Char} (hcomma : ',' ∉ c :: r) (hquote : c ≠ '"')
    (hpad : Text.isPad c = false) : before.Passes (c :: r) bare := by
  obtain ⟨hc, hr⟩ := List.ne_and_not_mem_of_not_mem_cons hcomma
  have hnext : before.next c = bare := by
    refine (if_neg hquote).trans (if_neg ?_)
    rintro (h | h)
    · rw [hpad] at h
      exact Bool.noConfusion h
    · exact hc h.symm
  refine .cons (fun h => absurd h.symm hc) ?_
  rw [hnext]
  exact bare_passes hr

end Stand

/-- The commas of a line that stand outside quoted elements. -/
def outerCommas (v : String) : Nat := Stand.before.commas v.toList

/-! ## What stands at the start of a line -/

/-- How the first element of a line is read, with the spaces and tabs around it. -/
inductive Opens : List Char → Except ParseError (List Char × Option (List Char)) → Prop
  | unterminated {w t : List Char} (hw : w.all Text.isPad = true) (h : readQuoted t = none) :
      Opens (w ++ '"' :: t) (.error .unterminatedQuote)
  | quoted {w t item z : List Char} {o : Option (List Char)} (hw : w.all Text.isPad = true)
      (h : readQuoted t = some (item, z ++ behind o)) (hz : z.all Text.isPad = true) :
      Opens (w ++ '"' :: t) (.ok (item, o))
  | textAfter {w t item z r : List Char} {c : Char} (hw : w.all Text.isPad = true)
      (h : readQuoted t = some (item, z ++ c :: r)) (hz : z.all Text.isPad = true)
      (hc : Text.isPad c = false) (hcomma : c ≠ ',') :
      Opens (w ++ '"' :: t) (.error .textAfterQuote)
  | bare {w p : List Char} {o : Option (List Char)} (hw : w.all Text.isPad = true)
      (hcomma : ',' ∉ p) (hp : ∀ c, p.head? = some c → Text.isPad c = false ∧ c ≠ '"') :
      Opens (w ++ (p ++ behind o)) (.ok (Text.trim Text.isBlank p, o))

theorem exists_pads (s : List Char) : ∃ w t, s = w ++ t ∧ w.all Text.isPad = true ∧
    s.dropWhile Text.isPad = t ∧ ∀ c, t.head? = some c → Text.isPad c = false := by
  refine ⟨s.takeWhile Text.isPad, s.dropWhile Text.isPad,
    List.takeWhile_append_dropWhile.symm, List.all_takeWhile, rfl, fun c hc => ?_⟩
  have hhead := List.head?_dropWhile_not Text.isPad s
  rw [hc] at hhead
  simpa using hhead

theorem exists_behind (t : List Char) : ∃ p o, t = p ++ behind o ∧ ',' ∉ p := by
  induction t with
  | nil => exact ⟨[], none, rfl, List.not_mem_nil⟩
  | cons c r ih =>
    by_cases hc : c = ','
    · exact ⟨[], some r, by rw [hc]; rfl, List.not_mem_nil⟩
    · obtain ⟨p, o, rfl, hp⟩ := ih
      exact ⟨c :: p, o, rfl, List.not_mem_cons_of_ne_of_not_mem (Ne.symm hc) hp⟩

/-- The first element is read in one of four ways. -/
theorem opens_firstItem (s : List Char) : Opens s (firstItem s) := by
  obtain ⟨w, t, rfl, hw, hdrop, hhead⟩ := exists_pads s
  unfold firstItem
  rw [hdrop]
  split
  · next t =>
    cases hread : readQuoted t with
    | none => exact .unterminated hw hread
    | some x =>
    obtain ⟨item, u⟩ := x
    obtain ⟨z, v, rfl, hz, hdrop, hv⟩ := exists_pads u
    dsimp only
    rw [hdrop]
    split
    · exact .quoted (o := none) hw hread hz
    · exact .quoted (o := some _) hw hread hz
    · next hnil hcomma =>
      cases v with
      | nil => exact absurd rfl hnil
      | cons c r => exact .textAfter hw hread hz (hv c rfl) fun h => hcomma r (by rw [h])
  · next hquote =>
    obtain ⟨p, o, rfl, hp⟩ := exists_behind t
    obtain ⟨htake, hrest⟩ := takeWhile_bare hp o
    have hopens : Opens (w ++ (p ++ behind o)) (.ok (Text.trim Text.isBlank p, o)) := by
      refine .bare hw hp fun c hc => ?_
      obtain ⟨r, rfl⟩ := List.head?_eq_some_iff.mp hc
      exact ⟨hhead c rfl, fun h => hquote _ (by rw [h]; rfl)⟩
    dsimp only
    rw [htake, hrest]
    cases o with
    | none => exact hopens
    | some v => exact hopens

theorem dropWhile_isPad_cons {w : List Char} (hw : w.all Text.isPad = true) {c : Char}
    (hc : Text.isPad c = false) (r : List Char) : (w ++ c :: r).dropWhile Text.isPad = c :: r := by
  rw [Text.dropWhile_append_left hw]
  exact List.dropWhile_cons_of_neg (by simp [hc])

theorem firstItem_quote {w : List Char} (hw : w.all Text.isPad = true) (t : List Char) :
    firstItem (w ++ '"' :: t) = match readQuoted t with
      | none => .error .unterminatedQuote
      | some (item, u) => match u.dropWhile Text.isPad with
        | [] => .ok (item, none)
        | ',' :: v => .ok (item, some v)
        | _ => .error .textAfterQuote := by
  unfold firstItem
  rw [dropWhile_isPad_cons hw (by decide)]
  rfl

/-- Each way to start a line leaves one result. -/
theorem firstItem_of_opens {s : List Char} {x : Except ParseError (List Char × Option (List Char))}
    (h : Opens s x) : firstItem s = x := by
  cases h with
  | unterminated hw h => rw [firstItem_quote hw, h]
  | @quoted w t item z o hw h hz =>
    rw [firstItem_quote hw, h]
    dsimp only
    rw [dropWhile_isPad_behind hz]
    cases o with
    | none => rfl
    | some v => rfl
  | textAfter hw h hz hc hcomma =>
    rw [firstItem_quote hw, h]
    dsimp only
    rw [dropWhile_isPad_cons hz hc]
    split
    · next hnil => exact nomatch hnil
    · next hcons => exact absurd (List.cons.inj hcons).1 hcomma
    · rfl
  | @bare w p o hw hcomma hp =>
    have hdrop : (w ++ (p ++ behind o)).dropWhile Text.isPad = p ++ behind o := by
      cases p with
      | nil => exact dropWhile_isPad_behind hw o
      | cons c r => exact dropWhile_isPad_cons hw (hp c rfl).1 _
    obtain ⟨htake, hrest⟩ := takeWhile_bare hcomma o
    unfold firstItem
    rw [hdrop]
    split
    · next t ht =>
      cases p with
      | nil =>
        cases o with
        | none => exact nomatch ht
        | some v => exact absurd (List.cons.inj ht).1 (by decide)
      | cons c r => exact absurd (List.cons.inj ht).1 (hp c rfl).2
    · dsimp only
      rw [htake, hrest]
      cases o with
      | none => rfl
      | some v => rfl

/-! ## Padding at the end of a line -/

theorem readQuoted_of_notMem {s : List Char} (h : '"' ∉ s) : readQuoted s = none := by
  fun_induction readQuoted s with
  | case1 => rfl
  | case2 r => exact absurd List.mem_cons_self h
  | case3 c r ih =>
    rw [ih fun hr => h (List.mem_cons_of_mem _ (List.mem_cons_of_mem _ hr))]
    rfl
  | case4 c r _ _ ih =>
    rw [ih fun hr => h (List.mem_cons_of_mem _ hr)]
    rfl

theorem readQuoted_append {w : List Char} (hw : '"' ∉ w) (s : List Char) :
    readQuoted (s ++ w) = (readQuoted s).map fun (item, r) => (item, r ++ w) := by
  fun_induction readQuoted s with
  | case1 => exact readQuoted_of_notMem hw
  | case2 r => rfl
  | case3 c r ih =>
    rw [List.cons_append, List.cons_append, readQuoted, ih, Option.map_map, Option.map_map]
    rfl
  | case4 c r hquote hback ih =>
    by_cases hslash : c = '\\' ∧ r = []
    · obtain ⟨rfl, rfl⟩ := hslash
      exact readQuoted_of_notMem (List.not_mem_cons_of_ne_of_not_mem (by decide) hw)
    · rw [List.cons_append, readQuoted, ih, Option.map_map, Option.map_map]
      · rfl
      · exact hquote
      · intro d t hc ht
        cases r with
        | nil => exact hslash ⟨hc, rfl⟩
        | cons e u => exact hback e u hc rfl

/-- Spaces and tabs behind a line stay behind its first element. -/
theorem opens_append {s w' : List Char} {x : Except ParseError (List Char × Option (List Char))}
    (h : Opens s x) (hw' : w'.all Text.isPad = true) :
    Opens (s ++ w') (x.map fun (item, o) => (item, o.map (· ++ w'))) := by
  have hquote : '"' ∉ w' := fun hmem => absurd (List.all_eq_true.mp hw' _ hmem) (by decide)
  have hcomma' : ',' ∉ w' := fun hmem => absurd (List.all_eq_true.mp hw' _ hmem) (by decide)
  have hboth : ∀ {z : List Char}, z.all Text.isPad = true → (z ++ w').all Text.isPad = true :=
    fun hz => by rw [List.all_append, hz, hw']; rfl
  cases h with
  | unterminated hw h =>
    rw [List.append_assoc, List.cons_append]
    refine .unterminated hw ?_
    rw [readQuoted_append hquote, h]
    rfl
  | @quoted w t item z o hw h hz =>
    rw [List.append_assoc, List.cons_append]
    cases o with
    | none =>
      refine .quoted (z := z ++ w') (o := none) hw ?_ (hboth hz)
      rw [readQuoted_append hquote, h]
      simp [behind]
    | some v =>
      refine .quoted (z := z) (o := some (v ++ w')) hw ?_ hz
      rw [readQuoted_append hquote, h]
      simp [behind]
  | @textAfter w t item z r c hw h hz hc hcomma =>
    rw [List.append_assoc, List.cons_append]
    have hread : readQuoted (t ++ w') = some (item, z ++ c :: (r ++ w')) := by
      rw [readQuoted_append hquote, h]
      simp
    exact .textAfter hw hread hz hc hcomma
  | @bare w p o hw hcomma hp =>
    cases o with
    | some v =>
      have h : Opens (w ++ (p ++ behind (some (v ++ w')))) (.ok (Text.trim Text.isBlank p, _)) :=
        .bare hw hcomma hp
      simpa [behind, Except.map] using h
    | none =>
      cases p with
      | nil =>
        have h : Opens (w ++ w' ++ ([] ++ behind none)) (.ok (Text.trim Text.isBlank [], none)) :=
          .bare (hboth hw) List.not_mem_nil fun _ hd => absurd hd (Option.some_ne_none _).symm
        simpa [behind, Except.map] using h
      | cons c r =>
        have hrest : ',' ∉ c :: r ++ w' := fun h => (List.mem_append.mp h).elim hcomma hcomma'
        have h : Opens (w ++ (c :: r ++ w' ++ behind none))
            (.ok (Text.trim Text.isBlank (c :: r ++ w'), none)) :=
          .bare hw hrest fun d hd => hp d hd
        rw [Text.trim_append_right _ (Text.all_isBlank_of_all_isPad hw')] at h
        simpa [behind, Except.map] using h

theorem firstItem_append {w : List Char} (hw : w.all Text.isPad = true) (s : List Char) :
    firstItem (s ++ w) = (firstItem s).map fun (item, o) => (item, o.map (· ++ w)) :=
  firstItem_of_opens (opens_append (opens_firstItem s) hw)

/-! ## Counting elements -/

/-- Reading a quoted element takes it up to its closing quote. -/
theorem quoted_of_readQuoted {s : List Char} : ∀ {item r : List Char},
    readQuoted s = some (item, r) →
      ∃ q, s = q ++ '"' :: r ∧ Stand.quoted.Passes (q ++ ['"']) .bare := by
  fun_induction readQuoted s with
  | case1 =>
    intro _ _ h
    cases h
  | case2 r =>
    rintro _ _ ⟨⟩
    exact ⟨[], rfl, rfl, rfl⟩
  | case3 c r ih =>
    intro item t h
    obtain ⟨⟨a, b⟩, hread, heq⟩ := Option.map_eq_some_iff.mp h
    obtain ⟨-, rfl⟩ := Prod.mk.inj heq
    obtain ⟨q, rfl, hq⟩ := ih hread
    exact ⟨'\\' :: c :: q, rfl, .cons (fun _ => rfl) (.cons (fun _ => rfl) hq)⟩
  | case4 c r hquote hback ih =>
    intro item t h
    obtain ⟨⟨a, b⟩, hread, heq⟩ := Option.map_eq_some_iff.mp h
    obtain ⟨-, rfl⟩ := Prod.mk.inj heq
    obtain ⟨q, rfl, hq⟩ := ih hread
    have hslash : c ≠ '\\' := fun hc => by
      cases hcons : q ++ '"' :: b with
      | nil => exact absurd hcons (by simp)
      | cons d u => exact hback d u hc hcons
    have hnext : Stand.quoted.next c = .quoted := (if_neg hquote).trans (if_neg hslash)
    refine ⟨c :: q, rfl, .cons (fun _ => rfl) ?_⟩
    rw [hnext]
    exact hq

/-- An element with its padding: no comma in it counts. -/
theorem passes_of_firstItem {s item : List Char} {o : Option (List Char)}
    (h : firstItem s = .ok (item, o)) :
    ∃ u st, s = u ++ behind o ∧ Stand.before.Passes u st ∧ st.isOutside = true := by
  have hopens := opens_firstItem s
  rw [h] at hopens
  cases hopens with
  | @quoted w t item z o hw h hz =>
    obtain ⟨q, rfl, hq⟩ := quoted_of_readQuoted h
    have hopen : Stand.before.Passes ('"' :: (q ++ ['"'])) .bare := .cons (by decide) hq
    have hrest : Stand.bare.Passes z .bare := Stand.bare_passes fun hmem =>
      absurd (List.all_eq_true.mp hz _ hmem) (by decide)
    refine ⟨w ++ ('"' :: (q ++ ['"']) ++ z), .bare, ?_,
      (Stand.before_passes hw).append (hopen.append hrest), rfl⟩
    simp only [List.append_assoc, List.cons_append, List.nil_append]
  | @bare w p o hw hcomma hp =>
    rw [← List.append_assoc]
    cases p with
    | nil => exact ⟨w ++ [], .before, rfl, (Stand.before_passes hw).append (.nil _), rfl⟩
    | cons c r =>
      obtain ⟨hpad, hquote⟩ := hp c rfl
      exact ⟨w ++ c :: r, .bare, rfl,
        (Stand.before_passes hw).append (Stand.before_passes_plain hcomma hquote hpad), rfl⟩

/-- Whether an element follows the last comma: not if nothing does. -/
def isOpenEnded (s : List Char) : Bool := s.isEmpty || s.getLast? = some ','

theorem isOpenEnded_append_comma (u v : List Char) :
    isOpenEnded (u ++ ',' :: v) = isOpenEnded v := by
  cases v with
  | nil => simp [isOpenEnded]
  | cons c r => simp [isOpenEnded, List.getLast?_cons]

theorem isOpenEnded_of_passes {s : List Char} {st : Stand} (hs : s ≠ [])
    (h : Stand.before.Passes s st) (hout : st.isOutside = true) : isOpenEnded s = false := by
  unfold isOpenEnded
  rw [List.isEmpty_eq_false_iff.mpr hs, decide_eq_false (h.getLast?_ne hout)]
  rfl

/-- The elements of a value are counted by its commas. -/
theorem length_items {s : List Char} : ∀ {xs : List (List Char)}, items s = .ok xs →
    xs.length = Stand.before.commas s + if isOpenEnded s then 0 else 1 := by
  fun_induction items s with
  | case1 =>
    rintro _ ⟨⟩
    rfl
  | case2 c r e h =>
    intro _ h
    exact nomatch h
  | case3 c r item h =>
    rintro _ ⟨⟩
    obtain ⟨u, st, hu, hpasses, hout⟩ := passes_of_firstItem h
    rw [behind, List.append_nil] at hu
    rw [← hu] at hpasses
    rw [hpasses.commas, isOpenEnded_of_passes (List.cons_ne_nil c r) hpasses hout]
    rfl
  | case4 c r item v h hlt ih =>
    intro xs hxs
    obtain ⟨ys, hys, rfl⟩ := Outcome.map_eq_ok.mp hxs
    obtain ⟨u, st, hu, hpasses, hout⟩ := passes_of_firstItem h
    rw [hu, behind, isOpenEnded_append_comma, Stand.commas_append, hpasses.commas, hpasses.after,
      Stand.commas_comma hout, List.length_cons, ih hys]
    omega

theorem items_eq {s : List Char} (hs : s ≠ []) : items s = match firstItem s with
    | .error e => .error e
    | .ok (item, none) => .ok [item]
    | .ok (item, some v) => (items v).map (item :: ·) := by
  cases h : firstItem s with
  | ok x =>
    rw [items_of_firstItem hs h]
    obtain ⟨item, _ | v⟩ := x
    · rfl
    · rfl
  | error e =>
    cases s with
    | nil => exact absurd rfl hs
    | cons c r =>
      rw [items]
      split
      · next he => rw [h] at he; cases he; rfl
      · next he => rw [h] at he; cases he
      · next he => rw [h] at he; cases he

/-- Spaces and tabs behind an open end are one more element, which is empty. -/
theorem items_append {w : List Char} (hw : w.all Text.isPad = true) (hne : w ≠ [])
    (s : List Char) :
    items (s ++ w) = (items s).map fun xs => if isOpenEnded s then xs ++ [[]] else xs := by
  have happend : ∀ s, s ++ w ≠ [] := fun s h => hne (List.append_eq_nil_iff.mp h).2
  fun_induction items s with
  | case1 =>
    rw [items_eq (happend []), firstItem_append hw]
    rfl
  | case2 c r e h =>
    rw [items_eq (happend (c :: r)), firstItem_append hw, h]
    rfl
  | case3 c r item h =>
    obtain ⟨u, st, hu, hpasses, hout⟩ := passes_of_firstItem h
    rw [behind, List.append_nil] at hu
    rw [← hu] at hpasses
    rw [items_eq (happend (c :: r)), firstItem_append hw, h,
      isOpenEnded_of_passes (List.cons_ne_nil c r) hpasses hout]
    rfl
  | case4 c r item v h hlt ih =>
    obtain ⟨u, st, hu, -, -⟩ := passes_of_firstItem h
    have hend : isOpenEnded (c :: r) = isOpenEnded v := by
      rw [hu, behind, isOpenEnded_append_comma]
    rw [items_eq (happend (c :: r)), firstItem_append hw, h, hend]
    change (items (v ++ w)).map (item :: ·) = _
    rw [ih]
    cases items v with
    | error e => rfl
    | ok ys =>
      cases isOpenEnded v with
      | true => rfl
      | false => rfl

/-! ## Padding around a line -/

theorem items_append_left {w : List Char} (hw : w.all Text.isPad = true) {s : List Char}
    (hs : s ≠ []) : items (w ++ s) = items s := by
  have hfirst : firstItem (w ++ s) = firstItem s := by
    unfold firstItem
    rw [Text.dropWhile_append_left hw]
  rw [items_eq fun h => hs (List.append_eq_nil_iff.mp h).2, items_eq hs, hfirst]

/-- Whether white space stands behind the last comma and nothing else does. -/
def endsBlank (s : List Char) : Bool :=
  (Text.trimEnd Text.isBlank s).getLast? = some ',' && s.getLast? ≠ some ','

theorem getLast?_trimEnd_of_comma {s : List Char} (h : s.getLast? = some ',') :
    (Text.trimEnd Text.isBlank s).getLast? = some ',' := by
  rw [Text.trimEnd_of_getLast? h (by decide), h]

theorem isOpenEnded_of_ne_nil {s : List Char} (hs : s ≠ []) :
    isOpenEnded s = decide (s.getLast? = some ',') := by
  unfold isOpenEnded
  rw [List.isEmpty_eq_false_iff.mpr hs, Bool.false_or]

/-- There is one element more than commas. White space behind the last comma counts twice. -/
theorem length_splitOne {s : List Char} (hs : s ≠ []) {xs : List (List Char)}
    (h : splitOne s = .ok xs) :
    xs.length = Stand.before.commas s + 1 + if endsBlank s then 1 else 0 := by
  obtain ⟨ys, hys, rfl⟩ := Outcome.map_eq_ok.mp h
  have hlength := length_items hys
  rw [isOpenEnded_of_ne_nil hs] at hlength
  unfold endsBlank
  by_cases hlast : s.getLast? = some ','
  · simp only [hlast, getLast?_trimEnd_of_comma hlast] at hlength ⊢
    simpa using hlength
  · by_cases htrim : (Text.trimEnd Text.isBlank s).getLast? = some ','
    · simpa [hlast, htrim] using hlength
    · simpa [hlast, htrim] using hlength

theorem splitOne_append {w : List Char} (hw : w.all Text.isPad = true) (hne : w ≠ [])
    {s : List Char} (hs : s ≠ []) : splitOne (s ++ w) =
      (splitOne s).map fun xs => if s.getLast? = some ',' then xs ++ [[]] else xs := by
  unfold splitOne
  rw [items_append hw hne, Text.trimEnd_append _ (Text.all_isBlank_of_all_isPad hw),
    isOpenEnded_of_ne_nil hs]
  cases items s with
  | error e => rfl
  | ok xs =>
    by_cases hlast : s.getLast? = some ','
    · simp [Except.map, hlast, getLast?_trimEnd_of_comma hlast]
    · simp [Except.map, hlast]

theorem splitOne_append_left {w : List Char} (hw : w.all Text.isPad = true) {s : List Char}
    (hs : s.all Text.isBlank = false) : splitOne (w ++ s) = splitOne s := by
  have hne : s ≠ [] := by
    rintro rfl
    exact Bool.noConfusion hs
  have hlast : (w ++ Text.trimEnd Text.isBlank s).getLast? =
      (Text.trimEnd Text.isBlank s).getLast? := by
    rw [List.getLast?_append]
    cases h : (Text.trimEnd Text.isBlank s).getLast? with
    | none => exact absurd (List.getLast?_eq_none_iff.mp h) (Text.trimEnd_ne_nil hs)
    | some c => rfl
  unfold splitOne
  rw [items_append_left hw hne, Text.trimEnd_append_left w hs, hlast]

theorem split_singleton (v : String) : split [v] =
    if v.toList.all Text.isBlank then .ok []
    else (splitOne v.toList).map fun xs => xs.map String.ofList := by
  unfold split
  rw [List.map_singleton, splitChars]
  split
  · rfl
  · rw [splitChars]
    cases splitOne v.toList with
    | error e => rfl
    | ok xs =>
      change Except.ok ((xs ++ []).map String.ofList) = _
      rw [List.append_nil]
      rfl

theorem all_isBlank_append {w : List Char} (hw : w.all Text.isPad = true) (s : List Char) :
    (s ++ w).all Text.isBlank = s.all Text.isBlank ∧
      (w ++ s).all Text.isBlank = s.all Text.isBlank := by
  rw [List.all_append, List.all_append, Text.all_isBlank_of_all_isPad hw, Bool.and_true,
    Bool.true_and]
  exact ⟨rfl, rfl⟩

theorem ne_nil_of_not_blank {s : List Char} (hs : ¬ s.all Text.isBlank = true) : s ≠ [] :=
  fun h => hs (h ▸ rfl)

theorem split_append_left (v : String) {w : String} (hw : w.toList.all Text.isPad = true) :
    split [w ++ v] = split [v] := by
  rw [split_singleton, split_singleton, String.toList_append,
    (all_isBlank_append hw v.toList).2]
  split
  · rfl
  · next hs => rw [splitOne_append_left hw (Bool.eq_false_iff.mpr hs)]

/-- Spaces and tabs behind a comma at the end are one more element, which is empty. -/
theorem split_append (v : String) {w : String} (hw : w.toList.all Text.isPad = true) :
    split [v ++ w] = (split [v]).map fun xs =>
      if w ≠ "" ∧ v.toList.getLast? = some ',' then xs ++ [""] else xs := by
  by_cases hne : w = ""
  · subst hne
    rw [String.append_empty]
    cases split [v] with
    | error e => rfl
    | ok xs => rfl
  have hnil : w.toList ≠ [] := fun h => hne (String.toList_inj.mp h)
  rw [split_singleton, split_singleton, String.toList_append,
    (all_isBlank_append hw v.toList).1]
  split
  · next hblank =>
    have hlast : v.toList.getLast? ≠ some ',' := fun h =>
      absurd (List.all_eq_true.mp hblank _ (List.mem_of_getLast? h)) (by decide)
    simp [Except.map, hlast]
  · next hblank =>
    rw [splitOne_append hw hnil (ne_nil_of_not_blank hblank)]
    cases splitOne v.toList with
    | error e => rfl
    | ok xs =>
      by_cases hlast : v.toList.getLast? = some ','
      · simp [Except.map, hlast, hne]
      · simp [Except.map, hlast]

theorem length_split {v : String} (hv : v.toList.all Text.isBlank = false) {xs : List String}
    (h : split [v] = .ok xs) :
    xs.length = outerCommas v + 1 + if endsBlank v.toList then 1 else 0 := by
  rw [split_singleton, hv, if_neg Bool.false_ne_true] at h
  obtain ⟨ys, hys, rfl⟩ := Outcome.map_eq_ok.mp h
  rw [List.length_map]
  exact length_splitOne (ne_nil_of_not_blank (Bool.eq_false_iff.mp hv)) hys

/-- Spaces and tabs around a line change nothing but in one place: behind a comma that ends it they
are one more empty element, and such a line has two elements more than commas. Every other line that
is not blank has one more, or its error. -/
theorem split_padded (v w : String) (hw : w.toList.all Text.isPad = true) :
    split [w ++ v] = split [v] ∧
    (split [v ++ w] = split [v] ↔
      w = "" ∨ v.toList.getLast? ≠ some ',' ∨ ∃ e, split [v] = .error e) ∧
    (w ≠ "" → v.toList.getLast? = some ',' →
      split [v ++ w] = (split [v]).map fun xs => xs ++ [""]) ∧
    (v.toList.all Text.isBlank = false → ∀ xs, split [v] = .ok xs →
      xs.length = outerCommas v + if endsBlank v.toList then 2 else 1) := by
  refine ⟨split_append_left v hw, ?_, ?_, ?_⟩
  · rw [split_append v hw]
    cases split [v] with
    | error e => exact iff_of_true rfl (Or.inr (Or.inr ⟨e, rfl⟩))
    | ok xs =>
      by_cases hmore : w ≠ "" ∧ v.toList.getLast? = some ','
      · refine iff_of_false ?_ ?_
        · rw [Except.map, if_pos hmore]
          simp
        · rintro (h | h | ⟨e, h⟩)
          · exact hmore.1 h
          · exact h hmore.2
          · exact nomatch h
      · rw [Except.map, if_neg hmore]
        refine iff_of_true rfl ?_
        by_cases hw : w = ""
        · exact Or.inl hw
        · exact Or.inr (Or.inl fun h => hmore ⟨hw, h⟩)
  · intro hne hlast
    rw [split_append v hw]
    simp only [hne, hlast, ne_eq, not_false_eq_true, and_self, if_true]
  · intro hv xs h
    rw [length_split hv h]
    cases endsBlank v.toList with
    | true => rfl
    | false => rfl

/-- A space behind a line that ends in a comma. -/
theorem split_padded_comma :
    split [" " ++ "a,"] = split ["a,"] ∧
    (split ["a," ++ " "] = split ["a,"] ↔
      " " = "" ∨ "a,".toList.getLast? ≠ some ',' ∨ ∃ e, split ["a,"] = .error e) ∧
    (" " ≠ "" → "a,".toList.getLast? = some ',' →
      split ["a," ++ " "] = (split ["a,"]).map fun xs => xs ++ [""]) ∧
    ("a,".toList.all Text.isBlank = false → ∀ xs, split ["a,"] = .ok xs →
      xs.length = outerCommas "a," + if endsBlank "a,".toList then 2 else 1) :=
  split_padded "a," " " (by decide)

/-- Not every padding is passed over, and not every line has one element more than commas. -/
theorem not_every_padding_dropped :
    (¬ ∀ v w : String, w.toList.all Text.isPad = true → split [v ++ w] = split [v]) ∧
    ¬ ∀ (v : String) (xs : List String), v.toList.all Text.isBlank = false →
      split [v] = .ok xs → xs.length = outerCommas v + 1 := by
  have hline : split ["a,"] = .ok ["a", ""] := by decide +kernel
  have hpadded : split ["a, "] = .ok ["a", "", ""] := by decide +kernel
  constructor
  · intro h
    have hsame := h "a," " " (by decide)
    change split ["a, "] = split ["a,"] at hsame
    rw [hline, hpadded] at hsame
    exact absurd hsame (by decide)
  · intro h
    exact absurd (h "a, " _ (by decide) hpadded) (by decide)

end Wireform.HeaderList
