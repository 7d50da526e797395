import Wireform.Proofs.Base64
import Wireform.Proofs.Binding.Formats
import Wireform.Proofs.HeaderList.Padding
import Wireform.Proofs.HeaderRule
import Wireform.Source.Expression

/-
  Wireform header lists: octets and texts of a media type, which stand in a line as base64 without
  quotes. The line is let through and read back unless the last element is empty
  (`octets_survive`): then it ends in a space behind a comma.
-/

namespace Wireform.HeaderList

/-- The line of a list of values that are sent as base64. -/
def base64Line (vs : List Value) : Except WriteError String :=
  (vs.mapM Scalar.base64Text).map fun ts => ", ".intercalate ts

/-- The line of a list of octets. -/
def octetsLine (bs : List Bytes) : String := ", ".intercalate (bs.map Base64.text)

theorem base64Line_blobs (bs : List Bytes) : base64Line (bs.map .blob) = .ok (octetsLine bs) := by
  have htexts : (bs.map Value.blob).mapM Scalar.base64Text = .ok (bs.map Base64.text) := by
    rw [Outcome.mapM_eq_ok, List.forall₂_map_left_iff, List.forall₂_map_right_iff,
      List.forall₂_same]
    exact fun _ _ => rfl
  unfold base64Line
  rw [htexts]
  rfl

theorem base64Line_texts (ts : List String) :
    base64Line (ts.map .text) = .ok (octetsLine (ts.map Utf8.ofString)) := by
  have htexts : (ts.map Value.text).mapM Scalar.base64Text =
      .ok ((ts.map Utf8.ofString).map Base64.text) := by
    rw [Outcome.mapM_eq_ok, List.map_map, List.forall₂_map_left_iff, List.forall₂_map_right_iff,
      List.forall₂_same]
    exact fun _ _ => rfl
  unfold base64Line
  rw [htexts]
  rfl

/-! ## The line of octets -/

theorem toList_text (b : Bytes) : (Base64.text b).toList = Base64.encode b := String.toList_ofList

theorem not_isBlank_encode {b : Bytes} {c : Char} (h : c ∈ Base64.encode b) :
    Text.isBlank c = false := by
  have hall : ∀ n < 0x7f, 0x20 < n → Text.isBlank (Char.ofNat n) = false := by decide +kernel
  obtain ⟨hlo, hhi, -⟩ := Base64.visible_of_mem_encode h
  have hc := hall c.toNat hhi hlo
  rwa [Char.ofNat_toNat] at hc

theorem octetsLine_cons_cons (b b' : Bytes) (bs : List Bytes) : octetsLine (b :: b' :: bs) =
    Base64.text b ++ ", " ++ octetsLine (b' :: bs) := String.intercalate_cons_cons

theorem octetsLine_concat {init : List Bytes} (h : init ≠ []) (last : Bytes) :
    octetsLine (init ++ [last]) = octetsLine init ++ ", " ++ Base64.text last := by
  have hmap : init.map Base64.text ≠ [] := fun hnil => h (List.map_eq_nil_iff.mp hnil)
  unfold octetsLine
  rw [List.map_append, List.map_singleton,
    String.intercalate_append_of_ne_nil hmap (List.cons_ne_nil _ _), String.intercalate_singleton]

theorem firstItem_encode {w : List Char} (hw : w.all Text.isPad = true) (b : Bytes)
    (o : Option (List Char)) :
    firstItem (w ++ (Base64.encode b ++ behind o)) = .ok (Base64.encode b, o) := by
  have htrim : Text.trim Text.isBlank (Base64.encode b) = Base64.encode b :=
    Text.trim_of_forall_not fun c hc => not_isBlank_encode hc
  have hcomma : ',' ∉ Base64.encode b := fun h => (Base64.visible_of_mem_encode h).2.2.1 rfl
  have hopens : Opens (w ++ (Base64.encode b ++ behind o))
      (.ok (Text.trim Text.isBlank (Base64.encode b), o)) := by
    refine .bare hw hcomma fun c hc => ?_
    have hmem := List.mem_of_head? hc
    refine ⟨?_, (Base64.visible_of_mem_encode hmem).2.2.2⟩
    cases hpad : Text.isPad c with
    | false => rfl
    | true => exact absurd (Text.isBlank_of_isPad hpad) (by simp [not_isBlank_encode hmem])
  rw [firstItem_of_opens hopens, htrim]

/-- Every element is read, an empty one too if anything stands around it. -/
theorem items_octets {w : List Char} (hw : w.all Text.isPad = true) (b : Bytes) (bs : List Bytes)
    (hne : w ++ (octetsLine (b :: bs)).toList ≠ []) :
    items (w ++ (octetsLine (b :: bs)).toList) = .ok ((b :: bs).map Base64.encode) := by
  induction bs generalizing w b with
  | nil =>
    have hline : (octetsLine [b]).toList = Base64.encode b ++ behind none := by
      rw [octetsLine, List.map_singleton, String.intercalate_singleton, toList_text]
      exact (List.append_nil _).symm
    rw [hline] at hne ⊢
    rw [items_of_firstItem hne (firstItem_encode hw b none)]
    rfl
  | cons b' bs ih =>
    have hline : (octetsLine (b :: b' :: bs)).toList =
        Base64.encode b ++ behind (some ([' '] ++ (octetsLine (b' :: bs)).toList)) := by
      rw [octetsLine_cons_cons, String.toList_append, String.toList_append, toList_text,
        List.append_assoc]
      rfl
    rw [hline] at hne ⊢
    rw [items_of_firstItem hne (firstItem_encode hw b _)]
    dsimp only
    rw [ih (by decide) b' (List.cons_ne_nil _ _)]
    rfl

/-- The line ends with its last element, if that shows. -/
theorem getLast?_octetsLine (init : List Bytes) {last : Bytes} (h : last ≠ []) :
    ∃ c ∈ Base64.encode last, (octetsLine (init ++ [last])).toList.getLast? = some c := by
  have hne : Base64.encode last ≠ [] := fun hnil => h (Base64.encode_eq_nil.mp hnil)
  have hlast := List.getLast?_eq_some_getLast hne
  refine ⟨_, List.getLast_mem hne, ?_⟩
  by_cases hinit : init = []
  · rw [hinit, List.nil_append, octetsLine, List.map_singleton, String.intercalate_singleton,
      toList_text, hlast]
  · rw [octetsLine_concat hinit, String.toList_append, List.getLast?_append, toList_text, hlast]
    rfl

theorem octetsLine_blank {init : List Bytes} (h : init ≠ []) :
    (octetsLine (init ++ [[]])).toList = (octetsLine init).toList ++ [','] ++ [' '] := by
  rw [octetsLine_concat h, String.toList_append, String.toList_append, toList_text,
    List.append_assoc, List.append_assoc]
  rfl

theorem items_octetsLine {init : List Bytes} {last : Bytes}
    (hne : (octetsLine (init ++ [last])).toList ≠ []) :
    items (octetsLine (init ++ [last])).toList = .ok ((init ++ [last]).map Base64.encode) := by
  cases h : init ++ [last] with
  | nil => exact absurd h (by simp)
  | cons b bs =>
    rw [h] at hne
    exact items_octets (w := []) rfl b bs hne

theorem map_encode (bs : List Bytes) :
    (bs.map Base64.encode).map String.ofList = bs.map Base64.text := by
  rw [List.map_map]
  rfl

theorem split_of_items {v : String} (hv : v.toList.all Text.isBlank = false)
    {xs : List (List Char)} (h : items v.toList = .ok xs) :
    split [v] = .ok ((if (Text.trimEnd Text.isBlank v.toList).getLast? = some ',' then xs ++ [[]]
      else xs).map String.ofList) := by
  rw [split_singleton, hv, if_neg Bool.false_ne_true, splitOne, h]
  rfl

theorem split_octetsLine (init : List Bytes) {last : Bytes} (h : last ≠ []) :
    split [octetsLine (init ++ [last])] = .ok ((init ++ [last]).map Base64.text) := by
  obtain ⟨c, hc, hlast⟩ := getLast?_octetsLine init h
  have hblank := not_isBlank_encode hc
  have hmem := List.mem_of_getLast? hlast
  have hall : (octetsLine (init ++ [last])).toList.all Text.isBlank = false :=
    List.all_eq_false.mpr ⟨c, hmem, by simp [hblank]⟩
  have hcomma : some c ≠ some ',' := fun heq =>
    (Base64.visible_of_mem_encode hc).2.2.1 (Option.some.inj heq)
  rw [split_of_items hall (items_octetsLine (List.ne_nil_of_mem hmem)),
    Text.trimEnd_of_getLast? hlast hblank, hlast, if_neg hcomma, map_encode]

/-- An empty element at the end is read twice. -/
theorem split_octetsLine_blank {init : List Bytes} (h : init ≠ []) :
    split [octetsLine (init ++ [[]])] = .ok (init.map Base64.text ++ ["", ""]) := by
  have hline := octetsLine_blank h
  have hall : (octetsLine (init ++ [[]])).toList.all Text.isBlank = false := by
    refine List.all_eq_false.mpr ⟨',', ?_, by decide⟩
    rw [hline]
    exact List.mem_append_left _ (List.mem_append_right _ List.mem_cons_self)
  have hne : (octetsLine (init ++ [[]])).toList ≠ [] := by
    rw [hline]
    exact List.append_ne_nil_of_right_ne_nil _ (List.cons_ne_nil _ _)
  have hlast : (Text.trimEnd Text.isBlank (octetsLine (init ++ [[]])).toList).getLast? =
      some ',' := by
    rw [hline, Text.trimEnd_append _ (by decide),
      Text.trimEnd_of_getLast? List.getLast?_concat (by decide), List.getLast?_concat]
  rw [split_of_items hall (items_octetsLine hne), hlast, if_pos rfl, List.map_append, map_encode,
    List.map_append, List.append_assoc]
  rfl

/-! ## The line as it is sent -/

theorem octetsLine_singleton (b : Bytes) : (octetsLine [b]).toList = Base64.encode b := by
  rw [octetsLine, List.map_singleton, String.intercalate_singleton, toList_text]

theorem mem_octetsLine {bs : List Bytes} {c : Char} (h : c ∈ (octetsLine bs).toList) :
    0x20 ≤ c.toNat ∧ c.toNat < 0x7f := by
  have hvisible : ∀ b, c ∈ Base64.encode b → 0x20 ≤ c.toNat ∧ c.toNat < 0x7f := fun b hc =>
    ⟨Nat.le_of_lt (Base64.visible_of_mem_encode hc).1, (Base64.visible_of_mem_encode hc).2.1⟩
  have hjoin : ∀ c ∈ ", ".toList, 0x20 ≤ c.toNat ∧ c.toNat < 0x7f := by
    have hchars : ", ".toList = [',', ' '] := rfl
    rw [hchars]
    intro c hc
    rcases List.mem_pair.mp hc with rfl | rfl <;> decide
  induction bs with
  | nil => exact absurd h List.not_mem_nil
  | cons b bs ih =>
    cases bs with
    | nil =>
      rw [octetsLine_singleton] at h
      exact hvisible b h
    | cons b' bs =>
      rw [octetsLine_cons_cons, String.toList_append, String.toList_append, toList_text,
        List.mem_append, List.mem_append] at h
      rcases h with (h | h) | h
      · exact hvisible b h
      · exact hjoin c h
      · exact ih h

theorem head?_octetsLine {bs : List Bytes} {c : Char}
    (h : (octetsLine bs).toList.head? = some c) : 0x20 < c.toNat := by
  have hvisible : ∀ b, (Base64.encode b).head? = some c → 0x20 < c.toNat := fun b hc =>
    (Base64.visible_of_mem_encode (List.mem_of_head? hc)).1
  cases bs with
  | nil => exact nomatch h
  | cons b bs =>
    cases bs with
    | nil =>
      rw [octetsLine_singleton] at h
      exact hvisible b h
    | cons b' bs =>
      rw [octetsLine_cons_cons, String.toList_append, String.toList_append, toList_text,
        List.append_assoc, List.head?_append] at h
      cases hb : (Base64.encode b).head? with
      | some d =>
        rw [hb] at h
        cases h
        exact hvisible b hb
      | none =>
        rw [hb] at h
        cases h
        decide

theorem isFieldValue_octetsLine (init : List Bytes) (last : Bytes) :
    HeaderRule.IsFieldValue (octetsLine (init ++ [last])) ↔ last ≠ [] ∨ init = [] := by
  have hpad : ∀ c : Char, 0x20 < c.toNat → c ≠ ' ' ∧ c ≠ '\t' := by
    intro c hc
    constructor
    · rintro rfl
      exact absurd hc (by decide)
    · rintro rfl
      exact absurd hc (by decide)
  constructor
  · intro h
    by_cases hlast : last = []
    · subst hlast
      refine Or.inr (Classical.byContradiction fun hinit => ?_)
      have hspace := h.last ' '
      rw [octetsLine_blank hinit, List.getLast?_concat] at hspace
      exact (hspace rfl).1 rfl
    · exact Or.inl hlast
  · intro h
    refine ⟨fun c hc => hpad c (head?_octetsLine hc), fun c hc => hpad c ?_, fun c hc => ?_⟩
    · by_cases hlast : last = []
      · have hinit := h.resolve_left fun hne => hne hlast
        rw [hlast, hinit] at hc
        exact nomatch hc
      · obtain ⟨d, hd, heq⟩ := getLast?_octetsLine init hlast
        rw [hc, Option.some.injEq] at heq
        exact heq ▸ (Base64.visible_of_mem_encode hd).1
    · obtain ⟨hlo, hhi⟩ := mem_octetsLine hc
      exact ⟨fun hcontrol => absurd hcontrol (by omega), by omega, by omega⟩

/-! ## Elements of members -/

section Elements

variable {α : Type} {octets : α → Bytes} {empty : α}

/-- What the line of a list is split into: its elements, unless the last one is empty. Then a list of
several elements has one more, and a list of one has none. -/
theorem exists_split (hempty : ∀ a, octets a = [] ↔ a = empty) (init : List α) (last : α) :
    ∃ as : List α, split [octetsLine ((init ++ [last]).map octets)] =
        .ok (as.map fun a => Base64.text (octets a)) ∧
      (as = init ++ [last] ↔ last ≠ empty) ∧
      (init ≠ [] → last = empty → as = init ++ [empty, empty]) := by
  have hmap : (init ++ [last]).map octets = init.map octets ++ [octets last] := List.map_append
  have htexts : ∀ as : List α,
      (as.map octets).map Base64.text = as.map fun a => Base64.text (octets a) :=
    fun as => List.map_map
  rw [hmap]
  by_cases hlast : last = empty
  · have hnil := (hempty last).mpr hlast
    subst hlast
    rw [hnil]
    by_cases hinit : init = []
    · subst hinit
      exact ⟨[], rfl, iff_of_false nofun fun h => h rfl, fun h => absurd rfl h⟩
    · refine ⟨init ++ [last, last], ?_, iff_of_false ?_ fun h => h rfl, fun _ _ => rfl⟩
      · rw [split_octetsLine_blank fun h => hinit (List.map_eq_nil_iff.mp h), htexts,
          List.map_append, List.map_cons, List.map_singleton, hnil]
        rfl
      · simp
  · refine ⟨init ++ [last], ?_, iff_of_true rfl hlast, fun _ h => absurd h hlast⟩
    rw [split_octetsLine _ fun h => hlast ((hempty last).mp h), ← hmap, htexts]

theorem checkedValue_octetsLine (hempty : ∀ a, octets a = [] ↔ a = empty) (init : List α)
    (last : α) (field : String) (sensitive : Bool) :
    HeaderRule.checkedValue field (octetsLine ((init ++ [last]).map octets)) sensitive =
      .ok (octetsLine ((init ++ [last]).map octets)) ↔ last ≠ empty ∨ init = [] := by
  rw [HeaderRule.checkedValue_eq_ok_iff, List.map_append, List.map_singleton,
    isFieldValue_octetsLine, ne_eq, hempty, List.map_eq_nil_iff]

end Elements

theorem readMany_base64 {line : String} {bs : List Bytes}
    (h : split [line] = .ok (bs.map Base64.text)) :
    readMany .base64 [line] = .ok (bs.map .blob) := by
  have hread : (bs.map Base64.text).mapM (Converter.read .base64) = .ok (bs.map .blob) := by
    rw [Outcome.mapM_eq_ok, List.forall₂_map_left_iff, List.forall₂_map_right_iff,
      List.forall₂_same]
    intro b _
    rw [Converter.read, Scalar.readBase64_text]
    rfl
  unfold readMany
  rw [h]
  change WireError.wrap .item ((bs.map Base64.text).mapM (Converter.read .base64)) = _
  rw [hread]
  rfl

theorem readMedia_base64 {line : String} {ts : List String}
    (h : split [line] = .ok (ts.map fun t => Base64.text (Utf8.ofString t))) :
    readMedia [line] = .ok ts := by
  have hread : (ts.map fun t => Base64.text (Utf8.ofString t)).mapM Scalar.readBase64Text =
      .ok ts := by
    rw [Outcome.mapM_eq_ok, List.forall₂_map_left_iff, List.forall₂_same]
    exact fun t _ => Scalar.readBase64Text_text t
  unfold readMedia
  rw [h]
  change WireError.wrap .item ((ts.map _).mapM Scalar.readBase64Text) = _
  rw [hread]
  rfl

/-- Elements that are sent as base64 are joined as they are, and read by what undoes base64. -/
theorem expressions_base64 {model : Model} {p : Protocol} {b : Binding} {f : Format}
    (h : Format.ofBinding model p b = .ok f) (hf : f.transform = .base64)
    (hlist : f.collection = true) (operand : String) (strict : Bool) :
    Source.headerExpression f operand =
        "\", \".join(_prim.base64_encode(element) for element in " ++ operand ++ ")" ∧
      Source.elementsExpression f strict = if f.media then "_h.read_many_media(values)"
        else "_h.read_many_from_str(values, _prim.base64_decode)" := by
  have hquote : f.quote = false := by
    obtain ⟨n, hruled⟩ := Format.ruled_of_rule h
    rw [hruled.quote, hf]
    rfl
  constructor
  · have hitem : "\", \".join(" ++ Source.encodeExpression .base64 "element" ++
        " for element in " = "\", \".join(_prim.base64_encode(element) for element in " := by
      decide
    unfold Source.headerExpression Format.isSingular
    rw [hlist, hf, hquote, Bool.not_true, if_neg Bool.false_ne_true]
    dsimp only
    rw [if_neg Bool.false_ne_true, hitem]
  · unfold Source.elementsExpression Source.converterExpression
    rw [hf]
    cases f.media with
    | true => rfl
    | false => rfl

/-- The elements of a list of texts of a media type, or of octets, go into one line as base64. The
line is let through and read back exactly if the last element is not empty, but for a list of one
element, whose line is let through in any case. An empty last element of several is read twice. -/
theorem media_survive (init : List String) (last : String) (blobs : List Bytes) (blob : Bytes) :
    (∃ line, base64Line ((init ++ [last]).map .text) = .ok line ∧
      (∀ field sensitive, HeaderRule.checkedValue field line sensitive = .ok line ↔
        last ≠ "" ∨ init = []) ∧
      (readMedia [line] = .ok (init ++ [last]) ↔ last ≠ "") ∧
      (init ≠ [] → last = "" → readMedia [line] = .ok (init ++ ["", ""]))) ∧
    (∃ line, base64Line ((blobs ++ [blob]).map .blob) = .ok line ∧
      (∀ field sensitive, HeaderRule.checkedValue field line sensitive = .ok line ↔
        blob ≠ [] ∨ blobs = []) ∧
      (readMany .base64 [line] = .ok ((blobs ++ [blob]).map .blob) ↔ blob ≠ []) ∧
      (blobs ≠ [] → blob = [] →
        readMany .base64 [line] = .ok ((blobs ++ [[], []]).map .blob))) ∧
    ∀ (model : Model) (p : Protocol) (b : Binding) (f : Format),
      Format.ofBinding model p b = .ok f → f.transform = .base64 → f.collection = true →
      ∀ operand strict, Source.headerExpression f operand =
          "\", \".join(_prim.base64_encode(element) for element in " ++ operand ++ ")" ∧
        Source.elementsExpression f strict = if f.media then "_h.read_many_media(values)"
          else "_h.read_many_from_str(values, _prim.base64_decode)" := by
  refine ⟨?_, ?_, fun model p b f h hf hlist operand strict =>
    expressions_base64 h hf hlist operand strict⟩
  · have hempty : ∀ s, Utf8.ofString s = [] ↔ s = "" := fun _ => Utf8.ofString_eq_nil
    obtain ⟨ts, hsplit, hsame, hblank⟩ := exists_split hempty init last
    refine ⟨_, base64Line_texts _, checkedValue_octetsLine hempty _ _, ?_, fun hinit hlast => ?_⟩
    · rw [readMedia_base64 hsplit, Except.ok.injEq, hsame]
    · rw [readMedia_base64 hsplit, hblank hinit hlast]
  · have hempty : ∀ b : Bytes, b = [] ↔ b = [] := fun _ => Iff.rfl
    obtain ⟨bs, hsplit, hsame, hblank⟩ := exists_split hempty blobs blob
    rw [List.map_id'] at hsplit
    refine ⟨_, base64Line_blobs _, ?_, ?_, fun hinit hlast => ?_⟩
    · have hchecked := checkedValue_octetsLine hempty blobs blob
      rw [List.map_id'] at hchecked
      exact hchecked
    · have hinj : Function.Injective Value.blob := fun _ _ h => Value.blob.inj h
      rw [readMany_base64 hsplit, Except.ok.injEq, hinj.list_map.eq_iff, hsame]
    · rw [readMany_base64 hsplit, hblank hinit hlast]

/-- Not every list of several texts of a media type is sent and read back. -/
theorem not_every_media_survives :
    (¬ ∀ (init : List String) (last : String), init ≠ [] → ∃ line,
      base64Line ((init ++ [last]).map .text) = .ok line ∧
      ∀ field sensitive, HeaderRule.checkedValue field line sensitive = .ok line) ∧
    ¬ ∀ (init : List String) (last : String), init ≠ [] → ∃ line,
      base64Line ((init ++ [last]).map .text) = .ok line ∧
      readMedia [line] = .ok (init ++ [last]) := by
  have hline : base64Line (["a", ""].map .text) = .ok "YQ==, " := by decide
  constructor
  · intro h
    obtain ⟨line, hbuilt, hchecked⟩ := h ["a"] "" (List.cons_ne_nil _ _)
    obtain rfl := Except.ok.inj (hline.symm.trans hbuilt)
    exact absurd (hchecked "tags" false) (by decide)
  · intro h
    obtain ⟨line, hbuilt, hread⟩ := h ["a"] "" (List.cons_ne_nil _ _)
    obtain rfl := Except.ok.inj (hline.symm.trans hbuilt)
    have hsplit : split ["YQ==, "] =
        .ok (["a", "", ""].map fun t => Base64.text (Utf8.ofString t)) := by decide +kernel
    rw [readMedia_base64 hsplit] at hread
    exact absurd hread (by decide)

end Wireform.HeaderList
