import Wireform.Proofs.Name.Identifiers
import Wireform.Proofs.Source.ClassNames
import Wireform.Proofs.Source.Lines
import Wireform.Proofs.Text.Words

/-
  Wireform source text: when a field of a data class has the name of something that the class uses.
  The hints of the fields name built-in types and classes, and their defaults name functions and
  modules. A field steps aside for the latter, but not for a built-in type, and not for a class whose
  name starts with a digit. `shadowed_iff` says which members make a field that does.
-/

namespace Wireform

/-! ## Names of fields -/

namespace Name

/-- The field for a spelling in small words. -/
def fieldFor (s : String) : String :=
  let name := safe (if s = "" then "_" else s)
  if reservedFields.contains name then name ++ "_" else name

theorem field_eq_fieldFor (a : String) : field a = fieldFor (snake a) := rfl

/-- The built-in types that a hint can name. -/
def builtinTypes : List String := ["str", "int", "float", "bool", "bytes", "list", "dict"]

/-- Fields do not step aside for a built-in type. -/
theorem field_eq_builtin_iff {a w : String} (hw : w ∈ builtinTypes) : field a = w ↔ snake a = w := by
  have hplain : ∀ v ∈ builtinTypes, bare v = v ∧ fieldFor v = v := by decide +kernel
  constructor
  · rintro rfl
    rw [← bare_field, (hplain _ hw).1]
  · rintro rfl
    rw [field_eq_fieldFor, (hplain _ hw).2]

/-- Words that a field steps aside for, or that no field can have. -/
def spared : List String :=
  ["Optional", "field", "config", "_ts", "_prim", "_m", "Any", "Decimal", "datetime"]

theorem field_ne_spared {a w : String} (hw : w ∈ spared) : field a ≠ w := by
  have hwords : ∀ v ∈ spared, (bare v).toList.all isSnakeChar = false ∨
      fieldFor (bare v) ≠ v := by decide +kernel
  intro h
  have hsnake : snake a = bare w := by rw [← h, bare_field]
  rcases hwords w hw with hother | hne
  · rw [← hsnake, List.all_eq_true.mpr fun c => isSnakeChar_of_mem_snake] at hother
    cases hother
  · exact hne (by rw [← hsnake, ← field_eq_fieldFor, h])

/-- A class does not begin with a small letter. -/
theorem head_camelChars {s : List Char} {c : Char} (hc : (camelChars s).head? = some c) :
    Text.isLowerAscii c = false := by
  have hwords : ∀ ws : List (List Char), (∀ w ∈ ws, ∀ d ∈ w, Text.isAlnumAscii d = true) →
      (ws.flatMap fun w => Text.upper (w.take 1) ++ w.drop 1).head? = some c →
      Text.isLowerAscii c = false := by
    intro ws hws h
    induction ws with
    | nil => cases h
    | cons w ws ih =>
      obtain ⟨hw, hrest⟩ := List.forall_mem_cons.mp hws
      cases w with
      | nil => exact ih hrest h
      | cons d w =>
        have hd : Text.isAlnumAscii d = true := hw d List.mem_cons_self
        have hascii := Text.isAscii_of_isAlnumAscii hd
        have hupper : Text.upper [d] = [Text.upperAscii d] :=
          Text.upper_of_isAscii fun x hx => List.mem_singleton.mp hx ▸ hascii
        rw [List.flatMap_cons, List.take_succ_cons, List.take_zero, hupper] at h
        obtain rfl : Text.upperAscii d = c := Option.some.inj h
        exact Text.forall_ascii (p := fun d => Text.isAlnumAscii d = true →
          Text.isLowerAscii (Text.upperAscii d) = false) (by decide +kernel) hascii hd
  exact hwords _ (fun w hw d hd => alnum_of_mem_parts hw hd) hc

/-- A name that begins with a digit gets a bar in front. -/
theorem safe_of_digit {s : String} {c : Char} {r : List Char} (hs : s.toList = c :: r)
    (hc : Text.isDigitAscii c = true) : safe s = "_" ++ s := by
  have hwords : ∀ w ∈ keywords ++ softKeywords,
      w.toList.head?.all (!Text.isDigitAscii ·) = true := by
    decide +kernel
  have hno : s ∉ keywords ++ softKeywords := by
    intro hmem
    have h := hwords s hmem
    rw [hs, List.head?_cons, Option.all_some, hc] at h
    cases h
  rw [List.mem_append, not_or] at hno
  unfold safe
  rw [if_neg (by simp [hno]), hs, List.take_succ_cons, List.take_zero, List.any_cons,
    isDigit_of_isDigitAscii hc, Bool.true_or, if_pos rfl]

/-- A field has the name of a class only if both are one spelling, which then begins with a
digit. -/
theorem field_eq_className_iff {a b : String} :
    field a = className b ↔ snake a = camel b ∧ snake a ≠ "" := by
  constructor
  · intro h
    have hsame : snake a = camel b := by rw [← bare_field, h, bare_className]
    refine ⟨hsame, fun hnil => ?_⟩
    have hclass : className b = "_" := if_pos (hsame ▸ hnil)
    rw [hclass, field_eq_fieldFor, hnil] at h
    exact absurd h (by decide +kernel)
  · rintro ⟨hsame, hne⟩
    obtain ⟨c, r, hs⟩ := List.exists_cons_of_ne_nil fun hnil =>
      hne (String.toList_eq_nil_iff.mp hnil)
    have hdigit : Text.isDigitAscii c = true := by
      have hsnake := isSnakeChar_of_mem_snake (hs ▸ List.mem_cons_self : c ∈ (snake a).toList)
      have hlower : Text.isLowerAscii c = false := by
        refine head_camelChars (s := b.toList) ?_
        have hcamel : (camelChars b.toList) = (snake a).toList := by
          rw [hsame]
          exact String.toList_ofList.symm
        rw [hcamel, hs]
        rfl
      have hbar : c ≠ '_' :=
        ne_bar_of_alnum (alnum_of_mem_camel (hsame ▸ hs ▸ List.mem_cons_self))
      simpa [isSnakeChar, hlower, hbar] using hsnake
    have hsafe := safe_of_digit hs hdigit
    have hfield : field a = "_" ++ snake a := by
      have hreserved : ∀ w ∈ reservedFields, w.toList.head? ≠ some '_' := by decide
      have hno : "_" ++ snake a ∉ reservedFields := fun hmem => hreserved _ hmem (by simp)
      unfold field
      dsimp only
      rw [if_neg hne, hsafe, if_neg (by simpa using hno)]
    unfold className
    rw [hfield, hsame, if_neg (hsame ▸ hne), ← hsame, hsafe]

end Name

/-! ## Words of a class -/

namespace Source

/-- The characters in a word of a hint, the dot in front of an attribute among them. -/
def isWordChar (c : Char) : Bool := Text.isAlnumAscii c || c = '_' || c = '.'

/-- The names that a text refers to: its words, each without its attributes. -/
def namesIn (s : String) : List String :=
  (Text.words (fun c => !isWordChar c) s.toList).map fun w => String.ofList (Text.cut '.' w).1

/-- The names that the hint of a field refers to, as it stands in the class. -/
def Field.hintNames (f : Field) : List String := namesIn ("Optional[" ++ f.hint.text ++ "]")

/-- The names that a class refers to in the hints and defaults of its fields. -/
def DataClass.names (c : DataClass) : List String :=
  c.fields.flatMap fun f => f.hintNames ++ ["field", "config", "_ts", "_prim"]

/-- The words of a hint. -/
def TypeHint.words : TypeHint → List String
  | builtin name => [name]
  | class_ name => [name]
  | forward name => [name]
  | list a => "list" :: a.words
  | dict a => "dict" :: "str" :: a.words

section

variable {model : Model} {defined : Option (List String)} {s t : Shape}

/-- A word can stand in a hint. -/
def IsHintWord (w : String) : Prop := Text.IsWord (fun c => !isWordChar c) w.toList

instance (w : String) : Decidable (IsHintWord w) :=
  inferInstanceAs (Decidable (Text.IsWord (fun c => !isWordChar c) w.toList))

theorem words_sep {p : Char → Bool} {c : Char} (hc : p c = true) (r : List Char) :
    Text.words p (c :: r) = Text.words p r := by
  unfold Text.words
  rw [Text.words.go, if_pos hc]
  rfl

/-- The words of a hint are found in its text, wherever a bracket closes behind it. -/
theorem words_text {hint : TypeHint} (h : ∀ w ∈ hint.words, IsHintWord w) (r : List Char) :
    Text.words (fun c => !isWordChar c) (hint.text.toList ++ ']' :: r) =
      hint.words.map String.toList ++ Text.words (fun c => !isWordChar c) r := by
  have hclose : (!isWordChar ']') = true := by decide
  induction hint generalizing r with
  | builtin name => exact Text.words_append (h name List.mem_cons_self) hclose r
  | class_ name => exact Text.words_append (h name List.mem_cons_self) hclose r
  | forward name =>
    have hquote : (!isWordChar '"') = true := by decide
    have htext : (TypeHint.forward name).text.toList ++ ']' :: r =
        '"' :: (name.toList ++ '"' :: ']' :: r) := by
      unfold TypeHint.text
      simp
    rw [htext, words_sep hquote, Text.words_append (h name List.mem_cons_self) hquote,
      words_sep hclose]
    rfl
  | list a ih =>
    obtain ⟨hlist, ha⟩ := List.forall_mem_cons.mp h
    have htext : (TypeHint.list a).text.toList ++ ']' :: r =
        "list".toList ++ '[' :: (a.text.toList ++ ']' :: ']' :: r) := by
      rw [TypeHint.text]
      simp
    rw [htext, Text.words_append hlist (by decide), ih ha, words_sep hclose]
    rfl
  | dict a ih =>
    obtain ⟨hdict, hrest⟩ := List.forall_mem_cons.mp h
    obtain ⟨hstr, ha⟩ := List.forall_mem_cons.mp hrest
    have htext : (TypeHint.dict a).text.toList ++ ']' :: r =
        "dict".toList ++
          '[' :: ("str".toList ++ ',' :: ' ' :: (a.text.toList ++ ']' :: ']' :: r)) := by
      rw [TypeHint.text]
      simp
    rw [htext, Text.words_append hdict (by decide), Text.words_append hstr (by decide),
      words_sep (by decide), ih ha, words_sep hclose]
    rfl

/-- The name that a word of a hint refers to. -/
def stem (w : String) : String := String.ofList (Text.cut '.' w.toList).1

/-- The names in a hint as it stands in a class are those of its words. -/
theorem hintNames_eq {f : Field} (h : ∀ w ∈ f.hint.words, IsHintWord w) :
    f.hintNames = "Optional" :: f.hint.words.map stem := by
  have hoptional : IsHintWord "Optional" := by decide
  have htext : ("Optional[" ++ f.hint.text ++ "]").toList =
      "Optional".toList ++ '[' :: (f.hint.text.toList ++ [']']) := by
    simp
  unfold Field.hintNames namesIn
  rw [htext, Text.words_append hoptional (by decide), words_text h, List.map_cons, List.map_append,
    List.map_map]
  exact congrArg _ (List.append_nil _)

/-! ## Words of a shape -/

theorem isHintWord_className (a : String) : IsHintWord (Name.className a) := by
  have hname := (Name.isUsable_className a).isIdentifier
  refine ⟨fun hnil => hname.ne_empty (String.toList_eq_nil_iff.mp hnil), fun c hc => ?_⟩
  have hword : isWordChar c = true := by
    unfold isWordChar
    rw [Bool.or_eq_true]
    exact Or.inl (hname.inside c hc)
  rw [hword]
  rfl

theorem stem_className (a : String) : stem (Name.className a) = Name.className a := by
  have hdot : '.' ∉ (Name.className a).toList := fun h =>
    absurd ((Name.isUsable_className a).isIdentifier.inside '.' h) (by decide)
  unfold stem
  rw [Text.cut_of_not_mem hdot, String.ofList_toList]

/-- The names that the hint of a shape refers to by itself, as far as a field can have them. -/
def ownNames (s : Shape) : List String :=
  if s.isStreamingBlob || s.isEventStream then []
  else if s.isEnum || s.kind.isAggregate then [Name.camel s.name].filter (· ≠ "")
  else if s.kind.isCollection then ["list"]
  else if s.kind = .map then ["dict", "str"]
  else (TypeHint.ofKind? s.kind).toList.filter Name.builtinTypes.contains

/-- The hint of a shape, or of what it holds, refers to a name that a field can have. -/
def Uses (model : Model) (s : Shape) (w : String) : Prop :=
  ∃ u, Relation.ReflTransGen model.HoldsValues s u ∧ w ∈ ownNames u

theorem uses_of_holds {w : String} (h : model.HoldsValues s t) :
    Uses model s w ↔ w ∈ ownNames s ∨ Uses model t w := by
  constructor
  · rintro ⟨u, hpath, hw⟩
    rcases hpath.cases_head with rfl | ⟨t', hst, htu⟩
    · exact Or.inl hw
    · exact Or.inr ⟨u, h.unique hst ▸ htu, hw⟩
  · rintro (hw | ⟨u, hpath, hw⟩)
    · exact ⟨s, .refl, hw⟩
    · exact ⟨u, hpath.head h, hw⟩

theorem uses_of_not_holds {w : String} (h : ¬ s.kind.Holds) :
    Uses model s w ↔ w ∈ ownNames s := by
  constructor
  · rintro ⟨u, hpath, hw⟩
    rcases hpath.cases_head with rfl | ⟨t, hst, -⟩
    · exact hw
    · exact absurd hst.1 h
  · exact fun hw => ⟨s, .refl, hw⟩

/-- A built-in type of a hint is one that a field can have as its name, or one that it steps aside
for. -/
theorem mem_words_of_ofKind {k : ShapeKind} {name : String} (h : TypeHint.ofKind? k = some name) :
    stem name = name ∧ IsHintWord name ∧ (name ∈ Name.builtinTypes ∨ name ∈ Name.spared) := by
  have hall : ∀ n ∈ ["bytes", "bool", "str", "datetime", "int", "float", "Decimal", "Any"],
      stem n = n ∧ IsHintWord n ∧ (n ∈ Name.builtinTypes ∨ n ∈ Name.spared) := by
    decide +kernel
  refine hall name ?_
  cases k
  all_goals
    unfold TypeHint.ofKind? at h
    cases h
  all_goals decide

theorem not_holds_of_leaf
    (h : (s.isStreamingBlob || s.isEventStream || s.isEnum || s.kind.isAggregate) = true) :
    ¬ s.kind.Holds := by
  rintro (hkind | hkind)
  · have hkinds : s.kind = .list ∨ s.kind = .set := by simpa [ShapeKind.isCollection] using hkind
    rcases hkinds with hkind | hkind
    all_goals
      simp [Shape.isStreamingBlob, Shape.isEventStream, Shape.isEnum, ShapeKind.isAggregate,
        hkind] at h
  · simp [Shape.isStreamingBlob, Shape.isEventStream, Shape.isEnum, ShapeKind.isAggregate,
      hkind] at h

/-- The words of a hint are words, and a field has the name of one exactly if the shape, or what it
holds, uses the spelling of this field. -/
def Refers (model : Model) (s : Shape) (hint : TypeHint) (a : String) : Prop :=
  (∀ w ∈ hint.words, IsHintWord w) ∧
    (Name.field a ∈ hint.words.map stem ↔ Uses model s (Name.snake a))

/-- No field has a name that all of them step aside for. -/
theorem refers_of_spared (hs : ¬ s.kind.Holds) (hown : ownNames s = []) {name : String}
    (hword : IsHintWord name) (hstem : stem name ∈ Name.spared) (a : String) :
    Refers model s (.builtin name) a := by
  refine ⟨List.forall_mem_singleton.mpr hword, ?_⟩
  rw [uses_of_not_holds hs, hown, TypeHint.words, List.map_singleton, List.mem_singleton]
  exact iff_of_false (Name.field_ne_spared hstem) List.not_mem_nil

theorem refers_ofClass (hs : ¬ s.kind.Holds)
    (hown : ownNames s = [Name.camel s.name].filter (· ≠ "")) (a : String) :
    Refers model s (TypeHint.ofClass defined s) a := by
  have hwords : (TypeHint.ofClass defined s).words = [classOf s] := by
    unfold TypeHint.ofClass
    split <;> rfl
  unfold Refers
  rw [hwords]
  refine ⟨List.forall_mem_singleton.mpr (isHintWord_className s.name), ?_⟩
  rw [uses_of_not_holds hs, hown, List.map_singleton, List.mem_singleton, classOf,
    stem_className, Name.field_eq_className_iff, List.mem_filter, List.mem_singleton]
  exact and_congr_right fun _ => by simp

theorem refers_list (hst : model.HoldsValues s t) (hown : ownNames s = ["list"]) {below : TypeHint}
    {a : String} (h : Refers model t below a) : Refers model s (.list below) a := by
  have hlist : stem "list" = "list" ∧ IsHintWord "list" := by decide +kernel
  refine ⟨List.forall_mem_cons.mpr ⟨hlist.2, h.1⟩, ?_⟩
  rw [uses_of_holds hst, ← h.2, hown, TypeHint.words, List.map_cons, List.mem_cons, hlist.1,
    Name.field_eq_builtin_iff (by decide), List.mem_singleton]

theorem refers_dict (hst : model.HoldsValues s t) (hown : ownNames s = ["dict", "str"])
    {below : TypeHint} {a : String} (h : Refers model t below a) :
    Refers model s (.dict below) a := by
  have hdict : stem "dict" = "dict" ∧ IsHintWord "dict" := by decide +kernel
  have hstr : stem "str" = "str" ∧ IsHintWord "str" := by decide +kernel
  refine ⟨List.forall_mem_cons.mpr ⟨hdict.2, List.forall_mem_cons.mpr ⟨hstr.2, h.1⟩⟩, ?_⟩
  rw [uses_of_holds hst, ← h.2, hown, TypeHint.words, List.map_cons, List.map_cons, List.mem_cons,
    List.mem_cons, hdict.1, hstr.1, Name.field_eq_builtin_iff (by decide),
    Name.field_eq_builtin_iff (by decide), List.mem_cons, List.mem_singleton, or_assoc]

/-- A field can have the name of a built-in type or steps aside for it. -/
theorem refers_ofKind (hs : ¬ s.kind.Holds) {name : String}
    (hname : TypeHint.ofKind? s.kind = some name)
    (hown : ownNames s = [name].filter Name.builtinTypes.contains) (a : String) :
    Refers model s (.builtin name) a := by
  obtain ⟨hstem, hword, hmem | hmem⟩ := mem_words_of_ofKind hname
  · have hkept : ownNames s = [name] := by
      rw [hown, List.filter_singleton, List.contains_iff_mem.mpr hmem]
      rfl
    refine ⟨List.forall_mem_singleton.mpr hword, ?_⟩
    rw [uses_of_not_holds hs, hkept, TypeHint.words, List.map_singleton, List.mem_singleton, hstem,
      Name.field_eq_builtin_iff hmem, List.mem_singleton]
  · have hdisjoint : ∀ v ∈ Name.spared, Name.builtinTypes.contains v = false := by decide
    have hnone : ownNames s = [] := by
      rw [hown, List.filter_singleton, hdisjoint name hmem]
      rfl
    exact refers_of_spared hs hnone hword (hstem.symm ▸ hmem) a

/-- A field has the name of a word in the hint of a shape exactly if the shape, or what it holds,
uses the spelling of this field. -/
theorem refers_of_ofShapeWithin {room : Nat} {hint : TypeHint}
    (h : TypeHint.ofShapeWithin model defined room s = .ok hint) (a : String) :
    Refers model s hint a := by
  induction room generalizing s hint with
  | zero => cases h
  | succ room ih =>
    rw [TypeHint.ofShapeWithin] at h
    split at h
    · next hblob =>
      cases h
      exact refers_of_spared (not_holds_of_leaf (by simp [hblob])) (by simp [ownNames, hblob])
        (by decide) (by decide) a
    next hblob =>
    split at h
    · next hstream =>
      cases h
      exact refers_of_spared (not_holds_of_leaf (by simp [hstream])) (by simp [ownNames, hstream])
        (by decide) (by decide) a
    next hstream =>
    split at h
    · next hclass =>
      cases h
      have hleaf : ¬ s.kind.Holds := not_holds_of_leaf (by simpa [or_assoc] using Or.inr (Or.inr
        ((Bool.or_eq_true _ _).mp hclass)))
      exact refers_ofClass hleaf (by simp [ownNames, hblob, hstream, hclass]) a
    next hclass =>
    split at h
    · next hkind =>
      obtain ⟨t, ht, h⟩ := Outcome.bind_eq_ok.mp h
      obtain ⟨below, hbelow, h⟩ := Outcome.bind_eq_ok.mp h
      cases h
      exact refers_list ⟨Or.inl hkind, lift_eq_ok.mp ht⟩
        (by simp [ownNames, hblob, hstream, hclass, hkind]) (ih hbelow)
    next hcollection =>
    split at h
    · next hkind =>
      obtain ⟨t, ht, h⟩ := Outcome.bind_eq_ok.mp h
      obtain ⟨below, hbelow, h⟩ := Outcome.bind_eq_ok.mp h
      cases h
      have hown : ownNames s = ["dict", "str"] := by
        unfold ownNames
        rw [if_neg (by simp [hblob, hstream]), if_neg hclass, if_neg hcollection, if_pos hkind]
      exact refers_dict ⟨Or.inr hkind, lift_eq_ok.mp ht⟩ hown (ih hbelow)
    next hmap =>
    split at h
    · next name hname =>
      cases h
      exact refers_ofKind (not_or.mpr ⟨hcollection, hmap⟩) hname
        (by simp [ownNames, hblob, hstream, hclass, hcollection, hmap, hname]) a
    · cases h

/-! ## Classes -/

theorem hint_of_ofMember {p : Protocol} {ids : List String} {m : Member} {f : Field}
    (h : Field.ofMember model p ids m = .ok f) : f.name = fieldOf m ∧
      ∃ t, model.targetOf m = .ok t ∧ TypeHint.ofShape model (some ids) t = .ok f.hint := by
  obtain ⟨t, ht, h⟩ := Outcome.bind_eq_ok.mp h
  obtain ⟨hint, hhint, h⟩ := Outcome.bind_eq_ok.mp h
  obtain ⟨config, -, h⟩ := Outcome.bind_eq_ok.mp h
  rw [← Except.ok.inj h]
  dsimp only
  exact ⟨rfl, t, lift_eq_ok.mp ht, hhint⟩

/-- A member is spelled like something that the hint of a member of its structure uses. -/
def Shadows (model : Model) (s : Shape) : Prop :=
  ∃ m ∈ s.members, ∃ m' ∈ s.members, ∃ t, model.targetOf m' = .ok t ∧
    Uses model t (Name.snake m.name)

/-- A field has a name in the hint of a field of a member, or in its default, exactly if the member's
target uses the spelling of the field. -/
theorem field_mem_names_iff {p : Protocol} {ids : List String} {m : Member} {f : Field}
    (h : Field.ofMember model p ids m = .ok f) (a : String) :
    Name.field a ∈ f.hintNames ++ ["field", "config", "_ts", "_prim"] ↔
      ∃ t, model.targetOf m = .ok t ∧ Uses model t (Name.snake a) := by
  obtain ⟨-, t, ht, hhint⟩ := hint_of_ofMember h
  obtain ⟨hwords, hiff⟩ := refers_of_ofShapeWithin hhint a
  have hoptional : Name.field a ≠ "Optional" := Name.field_ne_spared (by decide)
  have hdefault : Name.field a ∉ ["field", "config", "_ts", "_prim"] := by
    have hsub : ["field", "config", "_ts", "_prim"] ⊆ Name.spared := by decide
    exact fun hmem => Name.field_ne_spared (a := a) (hsub hmem) rfl
  rw [List.mem_append, or_iff_left hdefault, hintNames_eq hwords, List.mem_cons,
    or_iff_right hoptional, hiff]
  constructor
  · exact fun huses => ⟨t, ht, huses⟩
  · rintro ⟨t', ht', huses⟩
    exact Except.ok.inj (ht'.symm.trans ht) ▸ huses

/-- A class has a field with the name of something that it refers to exactly if its structure has a
member that is spelled like it. -/
theorem shadowed_of_dataClass {p : Protocol} {ids : List String} {c : DataClass}
    (h : DataClass.ofShape model p ids s = .ok c) :
    (∃ f ∈ c.fields, f.name ∈ c.names) ↔ Shadows model s := by
  have hfields := (parts_of_dataClass h).2
  have hnames : ∀ a, Name.field a ∈ c.names ↔ ∃ m' ∈ s.members, ∃ t,
      model.targetOf m' = .ok t ∧ Uses model t (Name.snake a) := by
    intro a
    unfold DataClass.names
    rw [List.mem_flatMap]
    constructor
    · rintro ⟨f, hf, hmem⟩
      obtain ⟨m, hm, hwrite⟩ := Outcome.exists_of_mem_forall₂ hfields hf
      exact ⟨m, hm, (field_mem_names_iff hwrite a).mp hmem⟩
    · rintro ⟨m, hm, huses⟩
      obtain ⟨f, hf, hwrite⟩ := Outcome.exists_of_mem_forall₂ hfields.flip hm
      exact ⟨f, hf, (field_mem_names_iff hwrite a).mpr huses⟩
  constructor
  · rintro ⟨f, hf, hmem⟩
    obtain ⟨m, hm, hwrite⟩ := Outcome.exists_of_mem_forall₂ hfields hf
    rw [(hint_of_ofMember hwrite).1] at hmem
    exact ⟨m, hm, (hnames m.name).mp hmem⟩
  · rintro ⟨m, hm, huses⟩
    obtain ⟨f, hf, hwrite⟩ := Outcome.exists_of_mem_forall₂ hfields.flip hm
    refine ⟨f, hf, ?_⟩
    rw [(hint_of_ofMember hwrite).1]
    exact (hnames m.name).mpr huses

end

end Source

/-- Each class of a generated module has a field with the name of something that the class refers to
in the hints and defaults of its fields exactly if its structure has a member that is spelled, in
small words, like a built-in type that the target of one of its members uses, or like the class of a
shape that it uses. -/
theorem shadowed_iff {model : Model} {settings : Settings} {cs : List Customization} {out : String}
    (hgenerate : generate model settings cs = .ok out) :
    ∃ x m enums structs, ServicePlan.ofModel model settings.service settings.protocol = .ok x ∧
      x.module settings cs = .ok m ∧ m.text = out ∧
      Source.collect x.model (Source.roots x.plans) = .ok (enums, structs) ∧
      (∀ c ∈ m.classes, ∀ l ∈ c.lines, Source.StandsIn l out) ∧
      List.Forall₂ (fun s c => c.name = Source.classOf s ∧
        ((∃ f ∈ c.fields, f.name ∈ c.names) ↔ Source.Shadows x.model s)) structs m.classes := by
  obtain ⟨x, m, hx, hm, rfl⟩ := generate_eq_ok.mp hgenerate
  obtain ⟨enums, structs, -, hcollect, hclasses, -⟩ := Source.written_of_ofPlans hm
  refine ⟨x, m, enums, structs, hx, hm, rfl, hcollect,
    fun c hc l hl => Source.standsIn_class hc hl, ?_⟩
  exact Source.forall₂_of_dataClasses
    (fun hc => ⟨(Source.parts_of_dataClass hc).1, Source.shadowed_of_dataClass hc⟩) hclasses

/-- A service whose input has one member. -/
def memberDocument (name target : String) : Json :=
  let api : Json := .map [("type", .text "service"), ("operations", .list [reference "ns#Get"])]
  let get : Json := .map [("type", .text "operation"), ("input", reference "ns#In"),
    ("traits", .map [(Trait.http, .map [("method", .text "GET"), ("uri", .text "/")])])]
  let input : Json := .map [("type", .text "structure"), ("members", .map [
    (name, reference target)])]
  .map [("shapes", .map [("ns#Api", api), ("ns#Get", get), ("ns#In", input)])]

/-- A member can be spelled like a built-in type that no member of its structure uses. -/
theorem unused_type_not_shadowed : ∃ (model : Model) (out : String) (x : ServicePlan)
    (m : Source.Module) (enums structs : List Shape),
    Model.load (memberDocument "dict" "smithy.api#Integer").compact = .ok model ∧
    generate model restSettings Customization.standard = .ok out ∧
    ServicePlan.ofModel model restSettings.service restSettings.protocol = .ok x ∧
    x.module restSettings Customization.standard = .ok m ∧ m.text = out ∧
    (∃ c ∈ m.classes, ∃ f ∈ c.fields, f.name = "dict") ∧
    Source.collect x.model (Source.roots x.plans) = .ok (enums, structs) ∧
    ∀ s ∈ structs, ¬ Source.Shadows x.model s := by
  have hload := Model.load_compact (j := memberDocument "dict" "smithy.api#Integer")
    (by decide +kernel)
  have hrun : Outcome.passes (fun model => Outcome.passes (fun x => Outcome.passes
      (fun m => (m.classes.any fun c => c.fields.any fun f => f.name = "dict") &&
        m.classes.all fun c => c.fields.all fun f => f.name ∉ c.names)
      (ServicePlan.module x restSettings Customization.standard))
      (ServicePlan.ofModel model restSettings.service restSettings.protocol))
      (Loader.modelOf (memberDocument "dict" "smithy.api#Integer")) = true := by
    decide +kernel
  obtain ⟨model, hmodel, hrun⟩ := Outcome.exists_of_passes hrun
  obtain ⟨x, hx, hrun⟩ := Outcome.exists_of_passes hrun
  obtain ⟨m, hm, hrun⟩ := Outcome.exists_of_passes hrun
  obtain ⟨hdict, hnone⟩ := Bool.and_eq_true_iff.mp hrun
  simp only [List.any_eq_true, List.all_eq_true, decide_eq_true_eq] at hdict hnone
  have hgenerate : generate model restSettings Customization.standard = .ok m.text :=
    generate_eq_ok.mpr ⟨x, m, hx, hm, rfl⟩
  obtain ⟨x', m', enums, structs, hx', hm', -, hcollect, -, hclasses⟩ := shadowed_iff hgenerate
  cases hx.symm.trans hx'
  cases hm.symm.trans hm'
  refine ⟨model, m.text, x, m, enums, structs, hload.trans hmodel, hgenerate, hx, hm, rfl, hdict,
    hcollect, fun s hs hshadows => ?_⟩
  obtain ⟨c, hc, -, hiff⟩ := Outcome.exists_of_mem_forall₂ hclasses.flip hs
  obtain ⟨f, hf, hmem⟩ := hiff.mpr hshadows
  exact hnone c hc f hf hmem

/-- A field can have the name of the built-in type in its own hint. -/
theorem not_every_field_spares : ¬ EveryModule fun m =>
    ∀ c ∈ m.classes, ∀ f ∈ c.fields, f.name ∉ c.names := by
  have hload := Model.load_compact (j := memberDocument "int" "smithy.api#Integer")
    (by decide +kernel)
  have hrun : Outcome.passes (fun model => Outcome.passes (fun x => Outcome.passes
      (fun m => !m.classes.all fun c => c.fields.all fun f => f.name ∉ c.names)
      (ServicePlan.module x restSettings Customization.standard))
      (ServicePlan.ofModel model restSettings.service restSettings.protocol))
      (Loader.modelOf (memberDocument "int" "smithy.api#Integer")) = true := by
    decide +kernel
  obtain ⟨model, hmodel, hrun⟩ := Outcome.exists_of_passes hrun
  obtain ⟨x, hx, hrun⟩ := Outcome.exists_of_passes hrun
  obtain ⟨m, hm, hrun⟩ := Outcome.exists_of_passes hrun
  intro h
  have hall := h _ model (hload.trans hmodel) restSettings x m hx hm
  simp only [Bool.not_eq_true', List.all_eq_false, List.all_eq_true, decide_eq_true_eq] at hrun
  obtain ⟨c, hc, hsome⟩ := hrun
  exact hsome (hall c hc)

end Wireform
