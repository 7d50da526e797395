import Wireform.Codec.Encode
import Wireform.HeaderList
import Wireform.Headers
import Wireform.Proofs.Generation
import Wireform.Proofs.HeaderRule
import Wireform.Proofs.Model.Loaded
import Wireform.Proofs.Outcome
import Wireform.Proofs.Text.Quoted
import Wireform.Source.Header

/-
  Wireform headers: what the lines that add the headers of a member do with a value, and what their
  errors tell of it. A refused value of a sensitive member is not shown, but a refused name is, with
  the key at its end: `refusals_alike_iff` says that two errors of a sensitive member look alike
  unless one of them refuses a name and the other one does not refuse the same name.

  The literal of a prefix with a character outside the basic plane stands for another text. No name
  begins with either of them.
-/

namespace Wireform

/-! ## What lines add -/

/-- Why a value has no text in a format. -/
inductive TextFault where
  | write (e : WriteError)
  | wrongKind (v : Value)

/-- Why a header is not added. -/
inductive AddError where
  | build (e : BuildError)
  | format (e : TextFault)

/-- What stands for an element. -/
def Transform.encode : Transform → Value → Except WriteError Value
  | verbatim, v => .ok v
  | member, v => Scalar.memberText v
  | base64, v => (Scalar.base64Text v).map .text
  | scalar _, v => (Scalar.write v).map .text
  | timestamp t, v => (Codec.timestampText t v).map .text

namespace Format

variable (f : Format)

/-- An element as it stands between commas. -/
def encodeItem (v : Value) : Except TextFault String := do
  match ← (f.transform.encode v).mapError .write with
  | .text t => return if f.quote then HeaderList.quote t else t
  | w => throw (.wrongKind w)

/-- What stands for the whole value of a header. -/
def encode (v : Value) : Except TextFault Value :=
  if f.isSingular then (f.transform.encode v).mapError .write
  else match v with
    | .list xs => do return .text (", ".intercalate (← xs.mapM f.encodeItem))
    | w => .error (.wrongKind w)

end Format

/-- What adds the headers of a member. -/
structure HeaderStep where
  binding : Binding
  format : Format
  sensitive : Bool

namespace HeaderStep

open Source (attributeOf fieldOf textLiteral headerExpression indent)

variable (s : HeaderStep)

/-- The field that errors name. -/
def field : String := fieldOf s.binding.member

def isRequired : Bool := s.binding.member.traits.has Trait.required

/-- The lines that add the header of an operand under a name. -/
def sendLines (operand name : String) : List String := [
  "formatted = " ++ headerExpression s.format operand,
  "if formatted:",
  "    builder.header(" ++ name ++ ", " ++ Source.checkedValue s.field s.sensitive ++ ")"]

/-- Adds a header for a value, unless its text is empty. -/
def send (name : String) (v : Value) (h : Headers) : Except AddError Headers :=
  match s.format.encode v with
  | .error fault => .error (.format fault)
  | .ok .null => .ok h
  | .ok (.text t) =>
    if t = "" then .ok h
    else ((HeaderRule.checkedValue s.field t s.sensitive).map (h.append name)).mapError .build
  | .ok w => .error (.format (.wrongKind w))

/-- The lines that add the header of a member. -/
def lines : List String :=
  (if s.isRequired then [
    "if " ++ attributeOf s.binding.member ++ " is None:",
    "    raise _m.BuildError.missing_field(\"" ++ s.field ++ "\", \"cannot be empty or unset\")"]
  else []) ++
    ("if " ++ attributeOf s.binding.member ++ " is not None:") ::
      (s.sendLines (attributeOf s.binding.member) (textLiteral s.binding.name)).map indent

/-- Adds the header of a member. -/
def add (v : Value) (h : Headers) : Except AddError Headers :=
  match v with
  | .null => if s.isRequired then .error (.build ⟨s.field, .unset⟩) else .ok h
  | v => s.send s.binding.name v h

/-- The lines that add the header of an entry. -/
def entryLines : List String :=
  ("name = _h.checked_header_name(\"" ++ s.field ++ "\", " ++ textLiteral s.binding.name ++
    " + key)") :: s.sendLines "item" "name"

/-- Adds the header of an entry. -/
def addEntry (h : Headers) (e : String × Value) : Except AddError Headers := do
  let name ← (HeaderRule.checkedName s.field (s.binding.name ++ e.1)).mapError .build
  s.send name e.2 h

/-- The lines that add the headers of a map, whose entries `custom` lines may put in order. -/
def mapLines (custom : List String) : List String := [
  "if " ++ attributeOf s.binding.member ++ " is not None:",
  "    items = list(" ++ attributeOf s.binding.member ++ ".items())"] ++ custom.map indent ++
    "    for key, item in items:" :: (s.entryLines.map indent).map indent

/-- Adds the headers of a map, whose entries are put in order before. -/
def addAll (order : List (String × Value) → List (String × Value)) (v : Value) (h : Headers) :
    Except AddError Headers :=
  match v with
  | .null => .ok h
  | .map es => (order es).foldlM s.addEntry h
  | w => .error (.format (.wrongKind w))

end HeaderStep

/-- The order of the keys, in which the standard customization puts entries. -/
def HeaderStep.byKey (es : List (String × Value)) : List (String × Value) :=
  es.mergeSort fun e e' => e.1 ≤ e'.1

theorem HeaderStep.byKey_singleton (e : String × Value) : byKey [e] = [e] :=
  List.mergeSort_singleton e

namespace Source

variable {w : Writer} {x : Exchange} {b : Binding} {f : Format} {sensitive : Bool}

/-- What is generated for a header are the lines of its step. -/
theorem headerLines_eq (hformat : w.formatOf b = .ok f)
    (hsensitive : w.isSensitive b.member = .ok sensitive) :
    headerLines w b = .ok (HeaderStep.lines ⟨b, f, sensitive⟩) := by
  have hexpression : "    formatted = " = "    " ++ "formatted = " := rfl
  have htest : "    if formatted:" = "    " ++ "if formatted:" := rfl
  have hcall : "        builder.header(" = "    " ++ "    builder.header(" := rfl
  unfold headerLines HeaderStep.lines HeaderStep.sendLines
  rw [hformat, hsensitive, hexpression, htest, hcall]
  simp only [List.map_cons, List.map_nil, indent, String.append_assoc]
  rfl

/-- What is generated for prefix headers are the lines of their step. -/
theorem prefixHeaderLines_eq (hformat : w.formatOf b = .ok f)
    (hsensitive : w.isSensitive b.member = .ok sensitive) :
    prefixHeaderLines w x b =
      .ok (HeaderStep.mapLines ⟨b, f, sensitive⟩ (w.customLines x b .beforeWriting)) := by
  have hname : "        name = _h.checked_header_name(\"" =
      "    " ++ ("    " ++ "name = _h.checked_header_name(\"") := rfl
  have hexpression : "        formatted = " = "    " ++ ("    " ++ "formatted = ") := rfl
  have htest : "        if formatted:" = "    " ++ ("    " ++ "if formatted:") := rfl
  have hcall : "            builder.header(name, " =
      "    " ++ ("    " ++ ("    builder.header(" ++ ("name" ++ ", "))) := rfl
  unfold prefixHeaderLines HeaderStep.mapLines HeaderStep.entryLines HeaderStep.sendLines
  rw [hformat, hsensitive, hname, hexpression, htest, hcall]
  simp only [List.map_cons, List.map_nil, indent, String.append_assoc]
  rfl

end Source

/-! ## Refusals -/

namespace HeaderStep

open HeaderRule (IsToken IsFieldValue)

/-- A text that is let through as a name: a token, or one before a line break. -/
def IsName (t : String) : Prop := IsToken t ∨ ∃ u, IsToken u ∧ t = u ++ "\n"

variable (s : HeaderStep)

/-- The text of a value is refused. -/
def Refuses (v : Value) : Prop :=
  ∃ t, s.format.encode v = .ok (.text t) ∧ t ≠ "" ∧ ¬ IsFieldValue t

/-- A value is sent, or there is nothing to send. -/
def Passes (v : Value) : Prop :=
  s.format.encode v = .ok .null ∨
    ∃ t, s.format.encode v = .ok (.text t) ∧ (t = "" ∨ IsFieldValue t)

/-- Where entries are refused: at the first name that is not let through, or else at the first value
that is refused. All entries before pass. -/
inductive RefusedAt : List (String × Value) → Option String → Prop
  | name {key : String} {item : Value} {es : List (String × Value)}
      (hname : ¬ IsName (s.binding.name ++ key)) :
      RefusedAt ((key, item) :: es) (some (s.binding.name ++ key))
  | value {key : String} {item : Value} {es : List (String × Value)}
      (hname : IsName (s.binding.name ++ key)) (hitem : s.Refuses item) :
      RefusedAt ((key, item) :: es) none
  | later {key : String} {item : Value} {es : List (String × Value)} {place : Option String}
      (hname : IsName (s.binding.name ++ key)) (hitem : s.Passes item)
      (h : RefusedAt es place) : RefusedAt ((key, item) :: es) place

/-- What is told of a refusal: its name, or nothing of a value. -/
def refusal (place : Option String) : BuildError where
  field := s.field
  cause := match place with
    | some name => .badName name (.badName name)
    | none => .hiddenValue

variable {s} {v : Value} {h : Headers} {e : BuildError} {name : String}

/-! ### One value -/

theorem passes_iff {t : String} (hv : s.format.encode v = .ok (.text t)) :
    s.Passes v ↔ t = "" ∨ IsFieldValue t := by
  unfold Passes
  rw [hv]
  simp

theorem refuses_iff {t : String} (hv : s.format.encode v = .ok (.text t)) :
    s.Refuses v ↔ t ≠ "" ∧ ¬ IsFieldValue t := by
  unfold Refuses
  rw [hv]
  simp

/-- A refused text is hidden. -/
theorem checkedValue_cases {t : String} (hs : s.sensitive = true) :
    IsFieldValue t ∧ HeaderRule.checkedValue s.field t s.sensitive = .ok t ∨
      ¬ IsFieldValue t ∧
        HeaderRule.checkedValue s.field t s.sensitive = .error (s.refusal none) := by
  rw [hs, ← HeaderRule.checkValue_eq_ok_iff]
  unfold HeaderRule.checkedValue
  cases HeaderRule.checkValue t with
  | ok _ => exact Or.inl ⟨rfl, rfl⟩
  | error fault => exact Or.inr ⟨nofun, rfl⟩

/-- A value passes, or it is refused and nothing is told of it, or it has no text. -/
theorem send_cases (hs : s.sensitive = true) (name : String) (v : Value) (h : Headers) :
    s.Passes v ∧ ¬ s.Refuses v ∧ (∃ h', s.send name v h = .ok h') ∨
      ¬ s.Passes v ∧ s.Refuses v ∧ s.send name v h = .error (.build (s.refusal none)) ∨
      ¬ s.Passes v ∧ ¬ s.Refuses v ∧ ∃ fault, s.send name v h = .error (.format fault) := by
  have hplain : ∀ {w : Except TextFault Value}, s.format.encode v = w →
      (∀ t, w ≠ .ok (.text t)) → ¬ s.Refuses v ∧ (w ≠ .ok .null → ¬ s.Passes v) := by
    rintro w rfl htext
    exact ⟨fun ⟨t, ht, _⟩ => htext t ht,
      fun hnull hpass => hpass.elim hnull fun ⟨t, ht, _⟩ => htext t ht⟩
  unfold send
  split
  · next fault hv =>
    obtain ⟨hrefuse, hpass⟩ := hplain hv nofun
    exact Or.inr (Or.inr ⟨hpass nofun, hrefuse, fault, rfl⟩)
  · next hv => exact Or.inl ⟨Or.inl hv, (hplain hv nofun).1, h, rfl⟩
  · next t hv =>
    rw [passes_iff hv, refuses_iff hv]
    split
    · next hempty => exact Or.inl ⟨Or.inl hempty, fun hrefuse => hrefuse.1 hempty, h, rfl⟩
    next hshown =>
    rcases checkedValue_cases hs (t := t) with ⟨hvalue, hcheck⟩ | ⟨hvalue, hcheck⟩
    all_goals rw [hcheck]
    · exact Or.inl ⟨Or.inr hvalue, fun hrefuse => hrefuse.2 hvalue, h.append name t, rfl⟩
    · exact Or.inr (Or.inl ⟨not_or.mpr ⟨hshown, hvalue⟩, ⟨hshown, hvalue⟩, rfl⟩)
  · next w hnull htext hv =>
    obtain ⟨hrefuse, hpass⟩ := hplain hv fun t he => htext t (Except.ok.inj he)
    exact Or.inr (Or.inr ⟨hpass fun he => hnull (Except.ok.inj he), hrefuse, .wrongKind w, rfl⟩)

theorem send_eq_build_iff (hs : s.sensitive = true) :
    s.send name v h = .error (.build e) ↔ s.Refuses v ∧ e = s.refusal none := by
  rcases send_cases hs name v h with ⟨-, hrefuse, h', hsend⟩ | ⟨-, hrefuse, hsend⟩ |
    ⟨-, hrefuse, fault, hsend⟩
  all_goals rw [hsend]
  · exact iff_of_false nofun fun he => hrefuse he.1
  · rw [Except.error.injEq, AddError.build.injEq, eq_comm]
    exact (and_iff_right hrefuse).symm
  · exact iff_of_false nofun fun he => hrefuse he.1

theorem exists_send_eq_ok_iff (hs : s.sensitive = true) :
    (∃ h', s.send name v h = .ok h') ↔ s.Passes v := by
  rcases send_cases hs name v h with ⟨hpass, -, hsend⟩ | ⟨hpass, -, hsend⟩ |
    ⟨hpass, -, fault, hsend⟩
  · exact iff_of_true hsend hpass
  all_goals
    rw [hsend]
    exact iff_of_false nofun hpass

/-! ### All entries -/

/-- An entry is sent under a name that is let through, and any other name is told. -/
theorem addEntry_cases (key : String) (item : Value) (h : Headers) :
    IsName (s.binding.name ++ key) ∧
        s.addEntry h (key, item) = s.send (s.binding.name ++ key) item h ∨
      ¬ IsName (s.binding.name ++ key) ∧
        s.addEntry h (key, item) = .error (.build (s.refusal (some (s.binding.name ++ key)))) := by
  unfold addEntry
  rcases HeaderRule.checkedName_cases s.field (s.binding.name ++ key) with ⟨hname, hcheck⟩ |
    ⟨hname, hcheck⟩
  all_goals dsimp only; rw [hcheck]
  · exact Or.inl ⟨hname, rfl⟩
  · exact Or.inr ⟨hname, rfl⟩

/-- Entries that are refused are so at one place, and the error tells of this place. -/
theorem foldlM_addEntry_eq_build_iff (hs : s.sensitive = true) {es : List (String × Value)} :
    es.foldlM s.addEntry h = .error (.build e) ↔
      ∃ place, s.RefusedAt es place ∧ e = s.refusal place := by
  induction es generalizing h with
  | nil =>
    refine iff_of_false nofun ?_
    rintro ⟨place, hplace, -⟩
    cases hplace
  | cons entry es ih =>
    obtain ⟨key, item⟩ := entry
    rw [List.foldlM_cons, Outcome.bind_eq_error]
    rcases addEntry_cases (s := s) key item h with ⟨hname, hentry⟩ | ⟨hname, hentry⟩
    all_goals rw [hentry]
    · rw [send_eq_build_iff hs]
      constructor
      · rintro (⟨hitem, he⟩ | ⟨h', hitem, he⟩)
        · exact ⟨none, .value hname hitem, he⟩
        · obtain ⟨place, hplace, he⟩ := ih.mp he
          exact ⟨place, .later hname ((exists_send_eq_ok_iff hs).mp ⟨h', hitem⟩) hplace, he⟩
      · rintro ⟨place, hplace, he⟩
        cases hplace with
        | name hbad => exact absurd hname hbad
        | value _ hitem => exact Or.inl ⟨hitem, he⟩
        | later _ hitem hplace =>
          obtain ⟨h', hitem⟩ := (exists_send_eq_ok_iff hs).mpr hitem
          exact Or.inr ⟨h', hitem, ih.mpr ⟨place, hplace, he⟩⟩
    · constructor
      · rintro (he | ⟨h', hitem, -⟩)
        · exact ⟨_, .name hname, (AddError.build.inj (Except.error.inj he)).symm⟩
        · cases hitem
      · rintro ⟨place, hplace, he⟩
        cases hplace with
        | name => exact Or.inl (congrArg (fun e => Except.error (AddError.build e)) he.symm)
        | value hgood => exact absurd hgood hname
        | later hgood => exact absurd hgood hname

/-! ### What errors tell -/

theorem field_refusal (place : Option String) : (s.refusal place).field = s.field := by
  simp only [refusal]

end HeaderStep

namespace BuildCause

theorem toList_message_badName (n : String) :
    (badName n (.badName n)).message.toList =
      '`' :: (n.toList ++ ("` cannot be used as a header name: invalid header name ".toList ++
        Text.quotedChars n.toList)) := by
  unfold message HeaderFault.message Text.quoted
  simp

/-- A name is found in what is told of it. -/
theorem message_badName_inj {m n : String}
    (h : (badName m (.badName m)).message = (badName n (.badName n)).message) : m = n := by
  rw [← String.toList_inj, toList_message_badName, toList_message_badName] at h
  exact String.toList_inj.mp (Text.append_quotedChars_inj (List.cons.inj h).2)

/-- What is told of a name ends in its quote. -/
theorem message_badName_ne (n : String) :
    (badName n (.badName n)).message ≠ hiddenValue.message := by
  intro h
  have hlast : (badName n (.badName n)).message.toList.getLast? =
      some (Text.quoteMark n.toList) := by
    rw [toList_message_badName, Text.quotedChars, ← List.append_assoc, ← List.append_assoc,
      ← List.cons_append, List.getLast?_concat]
  have hhidden : hiddenValue.message.toList.getLast? = some 'e' := by decide
  rw [h, hhidden, Option.some_inj] at hlast
  rcases Text.quoteMark_cases n.toList with hmark | hmark
  all_goals
    rw [hmark] at hlast
    exact absurd hlast (by decide)

end BuildCause

theorem BuildError.message_inj {field : String} {c d : BuildCause} :
    (BuildError.mk field c).message = (BuildError.mk field d).message ↔ c.message = d.message := by
  unfold BuildError.message
  rw [String.append_left_inj, String.append_right_inj]

namespace HeaderStep

variable {s : HeaderStep}

/-- Two refusals look alike exactly if they are at one place. -/
theorem message_refusal_inj {place place' : Option String} :
    (s.refusal place).message = (s.refusal place').message ↔ place = place' := by
  refine ⟨fun h => ?_, fun h => h ▸ rfl⟩
  have hcause := BuildError.message_inj.mp h
  cases place with
  | none =>
    cases place' with
    | none => rfl
    | some n => exact absurd hcause.symm (BuildCause.message_badName_ne n)
  | some m =>
    cases place' with
    | none => exact absurd hcause (BuildCause.message_badName_ne m)
    | some n => exact congrArg some (BuildCause.message_badName_inj hcause)

/-- Entries are refused at one place at most. -/
theorem RefusedAt.unique (hs : s.sensitive = true) {es : List (String × Value)}
    {place place' : Option String} (hplace : s.RefusedAt es place)
    (hplace' : s.RefusedAt es place') : place = place' := by
  have hfirst := (foldlM_addEntry_eq_build_iff (h := .empty) hs).mpr ⟨place, hplace, rfl⟩
  have hsecond := (foldlM_addEntry_eq_build_iff (h := .empty) hs).mpr ⟨place', hplace', rfl⟩
  have hsame := AddError.build.inj (Except.error.inj (hfirst.symm.trans hsecond))
  exact message_refusal_inj.mp (congrArg BuildError.message hsame)

/-- The value of a single header is refused without a word about it. -/
theorem add_eq_build (hs : s.sensitive = true) {v : Value} (hv : v ≠ .null) {h : Headers}
    {e : BuildError} (he : s.add v h = .error (.build e)) : e = s.refusal none := by
  unfold add at he
  split at he
  · exact absurd rfl hv
  · exact ((send_eq_build_iff hs).mp he).2

end HeaderStep

/-- Two errors of a sensitive header look alike. Two errors of sensitive prefix headers name one
field, and they look alike exactly if both maps are refused at a value or at the same name, in
whatever order their entries are written. -/
theorem refusals_alike_iff {w : Source.Writer} {x : Source.Exchange} {b : Binding} {f : Format}
    (hformat : w.formatOf b = .ok f) (hsensitive : w.isSensitive b.member = .ok true) :
    (b.location = .header →
      Source.addHeaderLines w x b = .ok (HeaderStep.lines ⟨b, f, true⟩) ∧
      ∀ (v v' : Value) (h h' : Headers) (e e' : BuildError), v ≠ .null → v' ≠ .null →
        HeaderStep.add ⟨b, f, true⟩ v h = .error (.build e) →
        HeaderStep.add ⟨b, f, true⟩ v' h' = .error (.build e') →
        e.field = e'.field ∧ e.message = e'.message) ∧
    (b.location = .prefixHeaders →
      Source.addHeaderLines w x b =
        .ok (HeaderStep.mapLines ⟨b, f, true⟩ (w.customLines x b .beforeWriting)) ∧
      ∀ (order : List (String × Value) → List (String × Value)) (es es' : List (String × Value))
        (h h' : Headers) (e e' : BuildError),
        HeaderStep.addAll ⟨b, f, true⟩ order (.map es) h = .error (.build e) →
        HeaderStep.addAll ⟨b, f, true⟩ order (.map es') h' = .error (.build e') →
        e.field = e'.field ∧ (e.message = e'.message ↔
          ∃ place, HeaderStep.RefusedAt ⟨b, f, true⟩ (order es) place ∧
            HeaderStep.RefusedAt ⟨b, f, true⟩ (order es') place)) := by
  constructor
  · intro hlocation
    refine ⟨?_, fun v v' h h' e e' hv hv' he he' => ?_⟩
    · unfold Source.addHeaderLines
      rw [hlocation]
      exact Source.headerLines_eq hformat hsensitive
    · have hsame : e = e' :=
        (HeaderStep.add_eq_build rfl hv he).trans (HeaderStep.add_eq_build rfl hv' he').symm
      exact hsame ▸ ⟨rfl, rfl⟩
  · intro hlocation
    refine ⟨?_, fun order es es' h h' e e' he he' => ?_⟩
    · unfold Source.addHeaderLines
      rw [hlocation]
      exact Source.prefixHeaderLines_eq hformat hsensitive
    · obtain ⟨place, hplace, rfl⟩ := (HeaderStep.foldlM_addEntry_eq_build_iff rfl).mp he
      obtain ⟨place', hplace', rfl⟩ := (HeaderStep.foldlM_addEntry_eq_build_iff rfl).mp he'
      refine ⟨?_, ?_⟩
      · rw [HeaderStep.field_refusal, HeaderStep.field_refusal]
      rw [HeaderStep.message_refusal_inj]
      constructor
      · rintro rfl
        exact ⟨place, hplace, hplace'⟩
      · rintro ⟨common, hes, hes'⟩
        exact (hplace.unique rfl hes).trans (hplace'.unique rfl hes').symm

/-- A document with an operation whose input is a map of sensitive prefix headers. -/
def sealedDocument : Json :=
  let member : Json := .map [("target", .text "ns#Tags"), ("traits", .map [
    (Trait.httpPrefixHeaders, .text "X-Meta-"), (Trait.sensitive, .map [])])]
  apiDocument member [("ns#Tags", .map [("type", .text "map"),
    ("key", reference "smithy.api#String"), ("value", reference "smithy.api#String")])]

/-- A member of the input of an operation that is planned for a text: sensitive headers that begin
with `start`, under a format that leaves texts as they are. -/
structure Sealed (text start : String) (x : ServicePlan) (plan : Plan) (b : Binding) (f : Format) :
    Prop where
  planned : ∃ model, Model.load text = .ok model ∧
    ServicePlan.ofModel model restSettings.service restSettings.protocol = .ok x
  plan_mem : plan ∈ x.plans
  mem : b ∈ plan.request
  location : b.location = .prefixHeaders
  name : b.name = start
  format : (Source.Writer.mk x.model x.protocol Customization.standard).formatOf b = .ok f
  sensitive :
    (Source.Writer.mk x.model x.protocol Customization.standard).isSensitive b.member = .ok true
  plain : ∀ t, f.encode (.text t) = .ok (.text t)

theorem exists_sealed : ∃ x plan b f, Sealed sealedDocument.compact "X-Meta-" x plan b f := by
  have hload := Model.load_compact (j := sealedDocument) (by decide +kernel)
  have hrun : Outcome.passes (fun model => Outcome.passes (fun x => x.plans.any fun plan =>
      plan.request.any fun b =>
        decide (b.location = .prefixHeaders) && decide (b.name = "X-Meta-") &&
        Outcome.passes (fun f => f.isSingular && decide (f.transform = .verbatim))
          ((Source.Writer.mk x.model x.protocol Customization.standard).formatOf b) &&
        Outcome.passes (fun sensitive => sensitive)
          ((Source.Writer.mk x.model x.protocol Customization.standard).isSensitive b.member))
      (ServicePlan.ofModel model restSettings.service restSettings.protocol))
      (Loader.modelOf sealedDocument) = true := by
    decide +kernel
  obtain ⟨model, hmodel, hrun⟩ := Outcome.exists_of_passes hrun
  obtain ⟨x, hx, hrun⟩ := Outcome.exists_of_passes hrun
  obtain ⟨plan, hplan, hrun⟩ := List.any_eq_true.mp hrun
  obtain ⟨b, hb, hrun⟩ := List.any_eq_true.mp hrun
  simp only [Bool.and_eq_true, decide_eq_true_eq] at hrun
  obtain ⟨⟨⟨hlocation, hname⟩, hformat⟩, hsensitive⟩ := hrun
  obtain ⟨f, hf, hformat⟩ := Outcome.exists_of_passes hformat
  obtain ⟨_, hsensitive, rfl⟩ := Outcome.exists_of_passes hsensitive
  obtain ⟨hsingle, hverbatim⟩ := Bool.and_eq_true_iff.mp hformat
  refine ⟨x, plan, b, f, ⟨model, hload.trans hmodel, hx⟩, hplan, hb, hlocation, hname, hf,
    hsensitive, fun t => ?_⟩
  unfold Format.encode
  rw [if_pos hsingle, of_decide_eq_true hverbatim]
  rfl

namespace Sealed

variable {text : String} {x : ServicePlan} {plan : Plan} {b : Binding} {f : Format}

/-- A map of one entry is refused at its name if this is no name. -/
theorem addAll_of_name (h : Sealed text "X-Meta-" x plan b f) (key : String) (item : Value)
    (hname : HeaderRule.isName ("X-Meta-" ++ key).toList = false) :
    HeaderStep.addAll ⟨b, f, true⟩ HeaderStep.byKey (.map [(key, item)]) .empty =
      .error (.build (HeaderStep.refusal ⟨b, f, true⟩ (some ("X-Meta-" ++ key)))) := by
  have hbad : ¬ HeaderStep.IsName (b.name ++ key) := by
    unfold HeaderStep.IsName
    rw [h.name, ← HeaderRule.isName_iff, hname]
    exact Bool.false_ne_true
  unfold HeaderStep.addAll
  dsimp only
  rw [HeaderStep.byKey_singleton]
  exact (HeaderStep.foldlM_addEntry_eq_build_iff rfl).mpr
    ⟨some ("X-Meta-" ++ key), h.name ▸ .name hbad, rfl⟩

/-- A map of one entry is refused at its value if this leaves its line. -/
theorem addAll_of_value (h : Sealed text "X-Meta-" x plan b f) (key t : String)
    (hname : HeaderRule.isName ("X-Meta-" ++ key).toList = true) (hshown : t ≠ "")
    (hvalue : HeaderRule.checkValue t ≠ .ok ()) :
    HeaderStep.RefusedAt ⟨b, f, true⟩ (HeaderStep.byKey [(key, .text t)]) none ∧
    HeaderStep.addAll ⟨b, f, true⟩ HeaderStep.byKey (.map [(key, .text t)]) .empty =
      .error (.build (HeaderStep.refusal ⟨b, f, true⟩ none)) := by
  have hgood : HeaderStep.IsName (b.name ++ key) := by
    unfold HeaderStep.IsName
    rw [h.name, ← HeaderRule.isName_iff, hname]
  have hplace : HeaderStep.RefusedAt ⟨b, f, true⟩ [(key, .text t)] none :=
    .value hgood ⟨t, h.plain t, hshown, by rwa [← HeaderRule.checkValue_eq_ok_iff]⟩
  unfold HeaderStep.addAll
  dsimp only
  rw [HeaderStep.byKey_singleton]
  exact ⟨hplace, (HeaderStep.foldlM_addEntry_eq_build_iff rfl).mpr ⟨none, hplace, rfl⟩⟩

end Sealed

/-- Of two values with a line break, under two keys, nothing is told. -/
theorem two_values_refused_alike : ∃ x plan b f e e',
    Sealed sealedDocument.compact "X-Meta-" x plan b f ∧
    HeaderStep.addAll ⟨b, f, true⟩ HeaderStep.byKey (.map [("Owner", .text "me\n")]) .empty =
      .error (.build e) ∧
    HeaderStep.addAll ⟨b, f, true⟩ HeaderStep.byKey (.map [("Id", .text "7\n")]) .empty =
      .error (.build e') ∧
    e.field = e'.field ∧ e.message = e'.message := by
  obtain ⟨x, plan, b, f, hsealed⟩ := exists_sealed
  obtain ⟨hplace, he⟩ := hsealed.addAll_of_value "Owner" "me\n" (by decide) (by decide) (by decide)
  obtain ⟨hplace', he'⟩ := hsealed.addAll_of_value "Id" "7\n" (by decide) (by decide) (by decide)
  obtain ⟨-, hmap⟩ := refusals_alike_iff (x := ⟨plan, plan.input, plan.request, .request, true⟩)
    hsealed.format hsealed.sensitive
  obtain ⟨hfield, halike⟩ := (hmap hsealed.location).2 _ _ _ _ _ _ _ he he'
  exact ⟨x, plan, b, f, _, _, hsealed, he, he', hfield, halike.mpr ⟨none, hplace, hplace'⟩⟩

/-- Errors of sensitive prefix headers can tell one key from another. -/
theorem not_every_refusal_alike : ¬ ∀ (text start : String) x plan b f,
    Sealed text start x plan b f → ∀ (v v' : Value) (h h' : Headers) (e e' : BuildError),
      HeaderStep.addAll ⟨b, f, true⟩ HeaderStep.byKey v h = .error (.build e) →
      HeaderStep.addAll ⟨b, f, true⟩ HeaderStep.byKey v' h' = .error (.build e') →
      e.field = e'.field ∧ e.message = e'.message := by
  intro h
  obtain ⟨x, plan, b, f, hsealed⟩ := exists_sealed
  have he := hsealed.addAll_of_name "my key" (.text "1") (by decide)
  have he' := hsealed.addAll_of_name "my pin" (.text "1") (by decide)
  obtain ⟨-, hsame⟩ := h _ _ x plan b f hsealed _ _ _ _ _ _ he he'
  rw [HeaderStep.message_refusal_inj, Option.some_inj] at hsame
  exact absurd hsame (by decide)

end Wireform
