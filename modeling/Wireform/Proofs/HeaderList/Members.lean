import Wireform.Proofs.Answers
import Wireform.Proofs.Binding.Formats
import Wireform.Proofs.HeaderList.Padding
import Wireform.Proofs.HeaderRule
import Wireform.Source.Expression

/-
  Wireform header lists: one member of an enum in a header of its own. It goes out as it is and is
  read as a list that may have one element, so it comes back exactly if the split leaves its text
  whole (`split_singleton_eq_self_iff`).
-/

namespace Wireform

/-! ## Texts of an enum -/

/-- What a text means to an enum: the first member that has it, or else the text itself, if unknown
texts are kept. -/
inductive Enumeration.Means (e : Enumeration) (s : String) : Bool → Value → Prop
  | member {earlier later : List (String × Value)} {name : String} (strict : Bool)
      (hmembers : e.members = earlier ++ (name, .text s) :: later)
      (hfirst : ∀ m ∈ earlier, m.2 ≠ .text s) : e.Means s strict (.member e.name name (.text s))
  | unknown (hnone : ∀ m ∈ e.members, m.2 ≠ .text s) : e.Means s false (.text s)

theorem Value.isText_iff {v : Value} {s : String} : v.isText s = true ↔ v = .text s := by
  cases v with
  | text t => rw [isText, decide_eq_true_eq, text.injEq]
  | _ => exact iff_of_false Bool.false_ne_true nofun

namespace Enumeration

variable {e : Enumeration} {s t : String} {strict : Bool} {v : Value}

theorem Means.read_eq (h : e.Means s strict v) : e.read strict s = .ok v := by
  unfold read
  cases h with
  | @member earlier later name strict hmembers hfirst =>
    have hfind : e.members.find? (fun m => m.2.isText s) = some (name, .text s) := by
      refine List.find?_eq_some_iff_append.mpr
        ⟨Value.isText_iff.mpr rfl, earlier, later, hmembers, fun m hm => ?_⟩
      rw [Bool.not_eq_true', ← Bool.not_eq_true, Value.isText_iff]
      exact hfirst m hm
    have htext : e.ofText? s = some (.member e.name name (.text s)) := by
      unfold ofText?
      rw [hfind]
      rfl
    rw [htext]
  | unknown hnone =>
    have htext : e.ofText? s = none := by
      refine Option.map_eq_none_iff.mpr (List.find?_eq_none.mpr fun m hm => ?_)
      rw [Value.isText_iff]
      exact hnone m hm
    rw [htext]
    rfl

theorem means_of_read (h : e.read strict s = .ok v) : e.Means s strict v := by
  unfold read at h
  split at h
  · next m hm =>
    cases h
    obtain ⟨⟨name, w⟩, hfind, rfl⟩ := Option.map_eq_some_iff.mp hm
    obtain ⟨hw, earlier, later, hmembers, hearlier⟩ := List.find?_eq_some_iff_append.mp hfind
    obtain rfl := Value.isText_iff.mp hw
    refine .member strict hmembers fun m hm hsame => ?_
    have hout := hearlier m hm
    rw [Value.isText_iff.mpr hsame] at hout
    cases hout
  · next hm =>
    split at h
    · cases h
    · next hstrict =>
      cases h
      rw [Bool.not_eq_true] at hstrict
      subst hstrict
      have hfind := List.find?_eq_none.mp (Option.map_eq_none_iff.mp hm)
      exact .unknown fun m hm hsame => hfind m hm (Value.isText_iff.mpr hsame)

/-- A value that is read from a text is written as that text. -/
theorem Means.memberText_eq (h : e.Means s strict v) : Scalar.memberText v = .ok (.text s) := by
  cases h with
  | member strict hmembers hfirst => rfl
  | unknown hnone => rfl

/-- No value is read from two texts. -/
theorem Means.text_unique (hs : e.Means s strict v) (ht : e.Means t strict v) : s = t := by
  have h := hs.memberText_eq.symm.trans ht.memberText_eq
  cases h
  rfl

end Enumeration

namespace HeaderList

/-! ## Texts that a split leaves whole -/

/-- A text that is one element as it stands: it has no comma, is not quoted, and shows something at
both ends. -/
structure StandsAlone (s : String) : Prop where
  comma : ',' ∉ s.toList
  quote : s.toList.head? ≠ some '"'
  shown : s ≠ ""
  first : ∀ c, s.toList.head? = some c → Text.isBlank c = false
  last : ∀ c, s.toList.getLast? = some c → Text.isBlank c = false

/-- What is taken out of quotes is shorter than what it is taken from. -/
theorem length_item_readQuoted {s : List Char} : ∀ {item r : List Char},
    readQuoted s = some (item, r) → item.length + r.length < s.length := by
  fun_induction readQuoted s with
  | case1 =>
    intro _ _ h
    cases h
  | case2 r =>
    intro _ _ h
    cases h
    rw [List.length_nil, List.length_cons]
    omega
  | case3 c r ih =>
    intro item t h
    obtain ⟨⟨a, b⟩, hread, heq⟩ := Option.map_eq_some_iff.mp h
    cases heq
    have := ih hread
    simp only [List.length_cons]
    omega
  | case4 c r hquote hback ih =>
    intro item t h
    obtain ⟨⟨a, b⟩, hread, heq⟩ := Option.map_eq_some_iff.mp h
    cases heq
    have := ih hread
    simp only [List.length_cons]
    omega

/-- An element as long as the text it is read from is the whole text. -/
theorem whole_of_opens {s item : List Char} {o : Option (List Char)} (h : Opens s (.ok (item, o)))
    (hlength : s.length ≤ item.length) :
    ',' ∉ s ∧ s.head? ≠ some '"' ∧ item = Text.trim Text.isBlank s ∧ o = none := by
  cases h with
  | quoted hw hread hz =>
    have hshort := length_item_readQuoted hread
    rw [List.length_append, List.length_cons] at hlength
    omega
  | @bare w p o hw hcomma hp =>
    have hshort := Text.length_trim_le Text.isBlank p
    rw [List.length_append, List.length_append] at hlength
    have hnone : (behind o).length = 0 := by omega
    have hempty : w = [] := List.length_eq_zero_iff.mp (by omega)
    cases o with
    | some v => cases hnone
    | none =>
      rw [hempty, behind, List.append_nil, List.nil_append]
      exact ⟨hcomma, fun hc => (hp _ hc).2 rfl, rfl, rfl⟩

theorem StandsAlone.trim_eq {s : String} (h : StandsAlone s) :
    Text.trim Text.isBlank s.toList = s.toList :=
  Text.trim_eq_self_iff.mpr ⟨h.first, h.last⟩

theorem StandsAlone.firstItem_eq {s : String} (h : StandsAlone s) :
    firstItem s.toList = .ok (s.toList, none) := by
  have hopens : Opens ([] ++ (s.toList ++ behind none))
      (.ok (Text.trim Text.isBlank s.toList, none)) := by
    refine .bare rfl h.comma fun c hc => ⟨?_, fun hquote => h.quote (hquote ▸ hc)⟩
    rw [← Bool.not_eq_true]
    intro hpad
    have hblank := Text.isBlank_of_isPad hpad
    rw [h.first c hc] at hblank
    cases hblank
  have hfirst := firstItem_of_opens hopens
  rwa [h.trim_eq, List.nil_append, behind, List.append_nil] at hfirst

theorem StandsAlone.split_eq {s : String} (h : StandsAlone s) : split [s] = .ok [s] := by
  have hnil : s.toList ≠ [] := fun hs => h.shown (String.toList_inj.mp hs)
  have hlast := List.getLast?_eq_some_getLast hnil
  have hblank : s.toList.all Text.isBlank = false :=
    List.all_eq_false.mpr ⟨_, List.getLast_mem hnil, by rw [h.last _ hlast]; exact nofun⟩
  have hend : (Text.trimEnd Text.isBlank s.toList).getLast? ≠ some ',' := by
    rw [Text.trimEnd_eq_self_of_trim h.trim_eq]
    exact fun hc => h.comma (List.mem_of_getLast? hc)
  have hitems : items s.toList = .ok [s.toList] := items_of_firstItem hnil h.firstItem_eq
  rw [split_singleton, hblank, if_neg Bool.false_ne_true, splitOne, hitems]
  show Except.ok ((if _ then [s.toList] ++ [[]] else [s.toList]).map String.ofList) = _
  rw [if_neg hend, List.map_singleton, String.ofList_toList]

/-- A text that is read as itself alone is its own first element. -/
theorem firstItem_of_items {s : List Char} (hs : s ≠ []) (h : items s = .ok [s]) :
    ∃ o, firstItem s = .ok (s, o) := by
  rw [items_eq hs] at h
  split at h
  · cases h
  · next item hfirst =>
    cases h
    exact ⟨none, hfirst⟩
  · next item v hfirst =>
    obtain ⟨ys, -, hcons⟩ := Outcome.map_eq_ok.mp h
    rw [(List.cons.inj hcons).1] at hfirst
    exact ⟨some v, hfirst⟩

theorem items_of_split {s : String} (h : split [s] = .ok [s]) :
    s.toList ≠ [] ∧ items s.toList = .ok [s.toList] := by
  rw [split_singleton] at h
  split at h
  · cases h
  next hblank =>
  have hnil : s.toList ≠ [] := ne_nil_of_not_blank hblank
  obtain ⟨xs, hxs, hmap⟩ := Outcome.map_eq_ok.mp h
  obtain ⟨ys, hys, hends⟩ := Outcome.map_eq_ok.mp hxs
  obtain ⟨item, rfl, rfl⟩ := List.map_eq_singleton_iff.mp hmap
  rw [String.toList_ofList] at *
  refine ⟨hnil, ?_⟩
  split at hends
  · -- an empty element behind a comma at the end would be the only one
    obtain ⟨-, hlast⟩ := List.append_inj' (hends.trans (List.nil_append [item]).symm) rfl
    exact absurd (List.cons.inj hlast).1.symm hnil
  · rw [hys, hends]

/-- A line has its own text as its only element exactly if the text stands alone. -/
theorem split_singleton_eq_self_iff (s : String) : split [s] = .ok [s] ↔ StandsAlone s := by
  refine ⟨fun h => ?_, StandsAlone.split_eq⟩
  obtain ⟨hnil, hitems⟩ := items_of_split h
  obtain ⟨o, hfirst⟩ := firstItem_of_items hnil hitems
  have hopens := opens_firstItem s.toList
  rw [hfirst] at hopens
  obtain ⟨hcomma, hquote, htrim, -⟩ := whole_of_opens hopens (Nat.le_refl _)
  obtain ⟨hstart, hend⟩ := Text.trim_eq_self_iff.mp htrim.symm
  exact ⟨hcomma, hquote, fun hs => hnil (hs ▸ rfl), hstart, hend⟩

/-! ## A header of one member -/

/-- The only element of a header, read by the converter. -/
def readOne (converter : Converter) (values : List String) : Except WireError (Option Value) := do
  let vs ← readMany converter values
  WireError.lift (atMostOne vs)

theorem readMany_eq_ok {c : Converter} {values : List String} {vs : List Value} :
    readMany c values = .ok vs ↔ ∃ xs, split values = .ok xs ∧ xs.mapM c.read = .ok vs := by
  unfold readMany
  simp only [Outcome.bind_eq_ok, WireError.lift_eq_ok, WireError.wrap_eq_ok]

theorem atMostOne_eq_some {vs : List Value} {v : Value} :
    atMostOne vs = .ok (some v) ↔ vs = [v] := by
  unfold atMostOne
  split
  · exact iff_of_false nofun nofun
  · rw [Except.ok.injEq, Option.some.injEq, List.cons.injEq, and_iff_left rfl]
  · next hnil hone => exact iff_of_false nofun (hone v)

theorem readOne_eq_some {c : Converter} {values : List String} {v : Value} :
    readOne c values = .ok (some v) ↔ ∃ x, split values = .ok [x] ∧ c.read x = .ok v := by
  unfold readOne
  simp only [Outcome.bind_eq_ok, WireError.lift_eq_ok, atMostOne_eq_some, readMany_eq_ok,
    Outcome.mapM_eq_ok]
  constructor
  · rintro ⟨_, ⟨xs, hxs, hread⟩, rfl⟩
    obtain ⟨x, rest, hx, hrest, rfl⟩ := List.forall₂_cons_right_iff.mp hread
    cases hrest
    exact ⟨x, hxs, hx⟩
  · intro ⟨x, hx, hread⟩
    exact ⟨[v], ⟨[x], hx, .cons hread .nil⟩, rfl⟩

theorem readOne_of_means {e : Enumeration} {s : String} {strict : Bool} {v : Value}
    (h : e.Means s strict v) :
    readOne (.member e strict) [s] = .ok (some v) ↔ split [s] = .ok [s] := by
  rw [readOne_eq_some]
  constructor
  · intro ⟨x, hx, hread⟩
    have hsame := h.text_unique (Enumeration.means_of_read hread)
    rwa [← hsame] at hx
  · exact fun hs => ⟨s, hs, h.read_eq⟩

/-- A single member is sent by its text alone, and read by what reads at most one element. -/
theorem expressions_member {model : Model} {p : Protocol} {b : Binding} {f : Format}
    (h : Format.ofBinding model p b = .ok f) (hf : f.transform = .member)
    (hsingle : f.collection = false) (operand : String) (strict : Bool) :
    Source.headerExpression f operand = "_prim.enum_text(" ++ operand ++ ")" ∧
      Source.readExpression f strict =
        "_h.expect_at_most_one(_h.read_many_from_str(values, lambda text: _prim.parse_enum(" ++
          Source.classOf f.element ++ ", text, strict=" ++ Source.flagLiteral strict ++ ")))" := by
  have hmedia : f.media = false := Format.media_of_rule h hf
  constructor
  · unfold Source.headerExpression Format.isSingular
    rw [hsingle, Bool.not_false, if_pos rfl, hf]
    rfl
  · have hopening :
        "_h.expect_at_most_one(_h.read_many_from_str(values, lambda text: _prim.parse_enum(" =
          "_h.expect_at_most_one(" ++ ("_h.read_many_from_str(values, " ++
            "lambda text: _prim.parse_enum(") := by decide
    have hclosing : ")))" = ")" ++ (")" ++ ")") := by decide
    unfold Source.readExpression Source.elementsExpression Source.converterExpression
      Format.isSingular
    rw [hsingle, Bool.not_false, if_pos rfl, hf, if_neg nofun, hopening, hclosing]
    dsimp only
    rw [hmedia, if_neg Bool.false_ne_true]
    simp only [String.append_assoc]

/-- A member of an enum, or an unknown text that is kept, comes back from a header of its own
exactly if its text stands alone: without commas, without a quote at its start and without white
space around it. -/
theorem single_member_survives_iff {e : Enumeration} {s : String} {strict : Bool} {v : Value}
    (h : e.Means s strict v) :
    Scalar.memberText v = .ok (.text s) ∧
    (readOne (.member e strict) [s] = .ok (some v) ↔ StandsAlone s) ∧
    ∀ (model : Model) (p : Protocol) (b : Binding) (f : Format),
      Format.ofBinding model p b = .ok f → f.transform = .member → f.collection = false →
      ∀ operand, Source.headerExpression f operand = "_prim.enum_text(" ++ operand ++ ")" ∧
        Source.readExpression f strict =
          "_h.expect_at_most_one(_h.read_many_from_str(values, lambda text: _prim.parse_enum(" ++
            Source.classOf f.element ++ ", text, strict=" ++ Source.flagLiteral strict ++
            ")))" := by
  refine ⟨h.memberText_eq, ?_, fun model p b f hrule hf hsingle operand =>
    expressions_member hrule hf hsingle operand strict⟩
  rw [readOne_of_means h, split_singleton_eq_self_iff]

/-- The second of two members, with a quote inside its text. -/
theorem single_member_survives_quote :
    (Enumeration.mk "Size" [("SMALL", .text "small"), ("INCH", .text "5\"")]).Means "5\"" true
        (.member "Size" "INCH" (.text "5\"")) ∧
      StandsAlone "5\"" ∧
      readOne (.member ⟨"Size", [("SMALL", .text "small"), ("INCH", .text "5\"")]⟩ true) ["5\""] =
        .ok (some (.member "Size" "INCH" (.text "5\""))) := by
  have hmeans : (Enumeration.mk "Size" [("SMALL", .text "small"), ("INCH", .text "5\"")]).Means
      "5\"" true (.member "Size" "INCH" (.text "5\"")) := by
    have hmembers : [("SMALL", Value.text "small"), ("INCH", .text "5\"")] =
        [("SMALL", .text "small")] ++ ("INCH", .text "5\"") :: [] := rfl
    refine .member true hmembers fun m hm => ?_
    rw [List.mem_singleton.mp hm]
    exact fun hsame => absurd (Value.text.inj hsame) (by decide)
  have halone : StandsAlone "5\"" := by
    refine ⟨by decide, by decide, by decide, fun c hc => ?_, fun c hc => ?_⟩
    · obtain rfl : '5' = c := Option.some.inj hc
      decide
    · obtain rfl : '"' = c := Option.some.inj hc
      decide
  exact ⟨hmeans, halone, (single_member_survives_iff hmeans).2.1.mpr halone⟩

/-- Not every member that can be sent comes back. -/
theorem not_every_single_member_survives :
    ¬ ∀ (e : Enumeration) (s : String) (strict : Bool) (v : Value), e.Means s strict v → s ≠ "" →
      (∀ field sensitive, HeaderRule.checkedValue field s sensitive = .ok s) →
      readOne (.member e strict) [s] = .ok (some v) := by
  intro h
  have hmembers : [("A_B", Value.text "a,b")] = [] ++ ("A_B", .text "a,b") :: [] := rfl
  have hmeans : (Enumeration.mk "Pair" [("A_B", .text "a,b")]).Means "a,b" true
      (.member "Pair" "A_B" (.text "a,b")) := .member true hmembers nofun
  have hread := h _ _ _ _ hmeans (by decide) fun field sensitive =>
    (HeaderRule.checkedValue_eq_ok_iff field "a,b" sensitive).mpr
      ((HeaderRule.checkValue_eq_ok_iff "a,b").mp rfl)
  rw [readOne_of_means hmeans, split_singleton_eq_self_iff] at hread
  exact absurd hread.comma (by decide)

end HeaderList

end Wireform
