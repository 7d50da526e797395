import Wireform.Proofs.Source.BodyLines
import Wireform.Proofs.Source.Ordering

/-
  Wireform source text: which texts of a model mean themselves in the module. The lines that hold
  them in literals stand in the module, and each literal is read there, with the text behind it, as
  the text exactly if the way it is written keeps the text.
-/

namespace Wireform

namespace Source

section

variable {model : Model} {p : Protocol} {m : Member} {w : Writer} {plans : List Plan}

/-! ## Fields -/

/-- How the value of a field is written and read in a document. -/
def codingOf (p : Protocol) (m : Member) (t : Shape) : Except AnalysisError (List String) :=
  if t.kind = .timestamp then do
    let format := formatLiteral (← fieldFormat p m t)
    return ["encoder=_ts.field_encoder(" ++ format ++ ")",
      "decoder=_ts.field_decoder(" ++ format ++ ")"]
  else if t.kind = .blob && !t.isStreamingBlob then
    .ok ["encoder=_prim.encode_blob_field", "decoder=_prim.decode_blob_field"]
  else .ok []

/-- The name of a member in a document. -/
def jsonNameOf (m : Member) : Json := (Entries.get? Trait.jsonName m.traits).getD (.text m.name)

theorem fieldConfig_eq : fieldConfig model p m = do
    let t ← model.targetOf m
    let coding ← codingOf p m t
    return ", ".intercalate (("field_name=" ++ (jsonNameOf m).compact) :: coding) := by
  unfold fieldConfig codingOf
  cases model.targetOf m with
  | error e => rfl
  | ok t =>
    dsimp only [bind, Except.bind]
    split
    · cases fieldFormat p m t with
      | error e => rfl
      | ok format => rfl
    · split <;> rfl

/-! ## Lines -/

/-- The pieces of a field. -/
def fieldPieces (f : Field) (name : String) (coding : List String) : List Piece :=
  .code (f.name ++ ": Optional[" ++ f.hint.text ++ "] = field(default=None, metadata=config(") ::
    Line.separated ([.code "field_name=", .literal (.escaped name)] ::
      coding.map fun c => [.code c]) ++ [.code "))"]

/-- The lines of a module that hold a text of the model in a literal. -/
inductive ModuleLine (w : Writer) (plans : List Plan) (service : String) : List Piece → Prop
  | service : ModuleLine w plans service [.code "SERVICE = ", .literal (.bare service)]
  | enumValue {enums structs : List Shape} {s : Shape} {values : List (String × Json)} {n : String}
      {v : Json} (hcollect : collect w.model (roots plans) = .ok (enums, structs))
      (hs : s ∈ enums) (hkind : s.kind ≠ .intEnum) (hvalues : s.enumValues = .ok values)
      (hv : (n, v) ∈ values) : ModuleLine w plans service
        [.code ("    " ++ Name.enumMember n ++ " = "), .literal (.escaped v.plain)]
  | field {enums front back : List Shape} {s t : Shape} {m : Member} {f : Field} {name : String}
      {coding : List String}
      (hcollect : collect w.model (roots plans) = .ok (enums, front ++ s :: back))
      (hm : m ∈ s.members)
      (hf : Field.ofMember w.model w.protocol (front.map Shape.id).reverse m = .ok f)
      (hname : jsonNameOf m = .text name) (ht : w.model.targetOf m = .ok t)
      (hcoding : codingOf w.protocol m t = .ok coding) :
      ModuleLine w plans service (.code "    " :: fieldPieces f name coding)
  | uri {p : Plan} (hp : p ∈ plans) :
      ModuleLine w plans service (.code (uriName p ++ " = ") ::
        Line.tuple (p.http.uri.segments.map fun s => Line.texts [s.kind.name, s.content]))
  | body {site : Site} {l : List Piece} (hsite : site ∈ sites plans) (hl : BodyLine w site l) :
      ModuleLine w plans service (.code "    " :: l)

/-! ## Where they stand -/

theorem mem_enumLines {s : Shape} {e : EnumClass} {values : List (String × Json)} {n : String}
    {v : Json} (hkind : s.kind ≠ .intEnum) (hvalues : s.enumValues = .ok values)
    (hv : (n, v) ∈ values) (h : EnumClass.ofShape s = .ok e) :
    Line.text [.code ("    " ++ Name.enumMember n ++ " = "), .literal (.escaped v.plain)] ∈
      e.lines := by
  obtain ⟨values', hvalues', h⟩ := Outcome.bind_eq_ok.mp h
  cases hvalues.symm.trans (Outcome.mapError_eq_ok.mp (lift_eq_ok.mp hvalues'))
  obtain ⟨members, hmembers, h⟩ := Outcome.bind_eq_ok.mp h
  obtain ⟨member, hmember, hwrite⟩ := Outcome.exists_of_mem_mapM hmembers hv
  obtain ⟨text, htext, rfl⟩ := Outcome.map_eq_ok.mp hwrite
  rw [decide_eq_false hkind] at htext
  obtain rfl : textLiteral v.plain = text := Except.ok.inj htext
  rw [← Except.ok.inj h]
  refine List.mem_cons_of_mem _ (List.mem_map.mpr ⟨_, hmember, ?_⟩)
  simp [indent, String.append_assoc]

theorem text_fieldPieces {defined : List String} {t : Shape} {f : Field} {name : String}
    {coding : List String} (hname : jsonNameOf m = .text name) (ht : model.targetOf m = .ok t)
    (hcoding : codingOf p m t = .ok coding) (hf : Field.ofMember model p defined m = .ok f) :
    Line.text (fieldPieces f name coding) = f.line := by
  have hcompact : (Json.text name).compact = textLiteral name := rfl
  have hconfig : fieldConfig model p m =
      .ok (", ".intercalate (("field_name=" ++ textLiteral name) :: coding)) := by
    rw [fieldConfig_eq, ht, hname, hcompact]
    dsimp only [bind, Except.bind]
    rw [hcoding]
    rfl
  obtain ⟨t', ht', hf⟩ := Outcome.bind_eq_ok.mp hf
  obtain ⟨hint, -, hf⟩ := Outcome.bind_eq_ok.mp hf
  obtain ⟨config, hwritten, hf⟩ := Outcome.bind_eq_ok.mp hf
  cases hconfig.symm.trans (lift_eq_ok.mp hwritten)
  rw [← Except.ok.inj hf]
  have hpieces : (([.code "field_name=", .literal (.escaped name)] ::
      coding.map fun c => [Piece.code c]).map Line.text) =
        ("field_name=" ++ textLiteral name) :: coding := by
    rw [List.map_cons, List.map_map]
    refine congrArg₂ _ ?_ ?_
    · simp
    · exact (List.map_congr_left fun c _ => Line.text_singleton _).trans (List.map_id _)
  unfold fieldPieces Field.line
  rw [List.cons_append, Line.text_cons, Line.text_append, Line.text_separated, hpieces,
    Line.text_singleton]
  simp [String.append_assoc]

theorem mem_classLines {c : DataClass} {f : Field} (h : f ∈ c.fields) :
    indent f.line ∈ c.lines := by
  have hne : f.line ≠ "" := by
    unfold Field.line
    simp [String.append_eq_empty_iff]
  have hbody : ∀ docs : List String, f.line ∈
      if (docs ++ c.fields.map Field.line).isEmpty then ["pass"]
      else docs ++ c.fields.map Field.line := by
    intro docs
    have hmem : f.line ∈ docs ++ c.fields.map Field.line :=
      List.mem_append_right _ (List.mem_map_of_mem h)
    rwa [List.isEmpty_eq_false_iff.mpr (List.ne_nil_of_mem hmem), if_neg Bool.false_ne_true]
  exact List.mem_append_right _ (List.mem_map.mpr ⟨f.line, hbody _, if_neg hne⟩)

theorem text_uri (p : Plan) :
    Line.text (.code (uriName p ++ " = ") ::
      Line.tuple (p.http.uri.segments.map fun s => Line.texts [s.kind.name, s.content])) =
      uriConstant p := by
  unfold uriConstant
  rw [Line.text_cons, Line.text_tuple, List.map_map]
  exact congrArg _ (congrArg _ (List.map_congr_left fun s _ => Line.text_texts _))

/-- The lines stand in the module. -/
theorem standsIn_of_moduleLine {o : ModuleOptions} {written : Module}
    (hwritten : Module.ofPlans w plans o = .ok written) {l : List Piece}
    (h : ModuleLine w plans o.service l) : StandsIn (Line.text l) written.text := by
  obtain ⟨enums', structs', -, hcollected, hclasses, -, -, henums, hservice, huris⟩ :=
    written_of_ofPlans hwritten
  cases h with
  | service =>
    refine standsIn_head ?_
    have hline : Line.text [.code "SERVICE = ", .literal (.bare o.service)] =
        "SERVICE = \"" ++ o.service ++ "\"" := by
      simp [← String.append_assoc]
    rw [hline, ← hservice]
    exact List.mem_append_right _ (List.mem_cons_of_mem _ List.mem_cons_self)
  | enumValue hcollect hs hkind hvalues hv =>
    cases hcollect.symm.trans hcollected
    obtain ⟨e, he, hwrite⟩ := Outcome.exists_of_mem_mapM henums hs
    exact standsIn_enum he (mem_enumLines hkind hvalues hv hwrite)
  | field hcollect hm hf hname ht hcoding =>
    cases hcollect.symm.trans hcollected
    obtain ⟨c, hc, hclass⟩ := exists_dataClass_at hclasses
    rw [List.append_nil] at hclass
    obtain ⟨f', hf', hwrite⟩ := 
      Outcome.exists_of_mem_forall₂ (parts_of_dataClass hclass).2.flip hm
    cases hf.symm.trans hwrite
    rw [Line.text_cons, text_fieldPieces hname ht hcoding hf]
    exact standsIn_class (List.mem_of_getElem? hc) (mem_classLines hf')
  | uri hp =>
    rw [text_uri]
    exact standsIn_uri (huris ▸ List.mem_map_of_mem hp)
  | body hsite hl =>
    obtain ⟨d, hd, hwrite⟩ := Outcome.exists_of_mem_mapM (functions_of_ofPlans hwritten) hsite
    exact standsIn_body hd (mem_body hl hwrite) (bodyLine_ne_empty hl)

/-! ## How they are read -/

theorem apart_fieldPieces (f : Field) (name : String) (coding : List String) :
    Line.Apart (fieldPieces f name coding) := by
  have hcoding : ∀ l ∈ coding.map fun c => [Piece.code c], Line.Leads l := by
    intro l hl
    obtain ⟨c, -, rfl⟩ := List.mem_map.mp hl
    exact Line.leads_code c
  have hname : Line.Leads [.code "field_name=", .literal (.escaped name)] :=
    fun back hopens h => Line.leads_literal (.escaped name) back hopens h
  exact Line.leads_separated (List.forall_mem_cons.mpr ⟨hname, hcoding⟩) [.code "))"]
    (Line.opens_cons _ (by decide)) trivial

/-- No literal of a line has a quote mark behind it. -/
theorem apart_of_moduleLine {service : String} {l : List Piece}
    (h : ModuleLine w plans service l) : Line.Apart l := by
  cases h with
  | service | enumValue => exact ⟨Line.opens_nil, trivial⟩
  | field => exact Line.apart_code _ (apart_fieldPieces _ _ _)
  | uri =>
    refine Line.apart_code _ (Line.apart_of_leads (Line.leads_tuple fun l hl => ?_))
    obtain ⟨s, -, rfl⟩ := List.mem_map.mp hl
    exact Line.leads_texts _
  | body hsite hl => exact Line.apart_code _ (apart_of_bodyLine hl)

/-- Each literal of a line is read, with what stands behind it, as its text exactly if the way it is
written keeps the text. -/
theorem reads_of_moduleLine {service : String} {front back : List Piece} {x : Quotation}
    (h : ModuleLine w plans service (front ++ .literal x :: back))
    (names : List Char → Option Nat) (rest : List Char) :
    x.Reads names ((Line.text back).toList ++ '\n' :: rest) ↔ x.Keeps :=
  reads_iff x (Line.head?_of_opens (Line.opens_of_apart (apart_of_moduleLine h)) rest)

end

end Source

/-! ## Generated modules -/

/-- The lines of a service's module that hold a text of the model in a literal. -/
def ServicePlan.HasLine (x : ServicePlan) (cs : List Customization) : List Source.Piece → Prop :=
  Source.ModuleLine ⟨x.model, x.protocol, cs⟩ x.plans x.service.name

/-- The lines that hold a text of the model in a literal stand in the module that is generated, and
each of these literals is read there as its text exactly if the way it is written keeps the text: in
the form of messages always, with escapes if all characters are in the basic plane, and as it is if
nothing in it ends the literal, starts an escape or, in a formatted literal, a field. -/
theorem literals_read_iff {model : Model} {settings : Settings} {cs : List Customization}
    {out : String} (hgenerate : generate model settings cs = .ok out) :
    ∃ x, ServicePlan.ofModel model settings.service settings.protocol = .ok x ∧
      (∀ l, x.HasLine cs l → Source.StandsIn (Source.Line.text l) out) ∧
      ∀ front q back, x.HasLine cs (front ++ .literal q :: back) → ∀ names rest,
        q.Reads names ((Source.Line.text back).toList ++ '\n' :: rest) ↔ q.Keeps := by
  obtain ⟨x, m, hx, hm, rfl⟩ := generate_eq_ok.mp hgenerate
  exact ⟨x, hx, fun l hl => Source.standsIn_of_moduleLine hm hl,
    fun front q back hl => Source.reads_of_moduleLine hl⟩

/-- A service of a name with an operation of a method. -/
def methodDocument (service method : String) : Json :=
  let api : Json := .map [("type", .text "service"), ("operations", .list [reference "ns#Get"])]
  let get : Json := .map [("type", .text "operation"), ("input", reference "ns#In"),
    ("traits", .map [(Trait.http, .map [("method", .text method), ("uri", .text "/")])])]
  let input : Json := .map [("type", .text "structure"), ("members", .map [])]
  .map [("shapes", .map [("ns#" ++ service, api), ("ns#Get", get), ("ns#In", input)])]

/-- The text of a document is a model of a service with a name, and a module is generated that has
an operation of a method. -/
def Generates (text service method : String) : Prop :=
  ∃ (model : Model) (x : ServicePlan) (out : String) (p : Plan), Model.load text = .ok model ∧
    generate model restSettings Customization.standard = .ok out ∧
    ServicePlan.ofModel model restSettings.service restSettings.protocol = .ok x ∧
    x.service.name = service ∧ p ∈ x.plans ∧ p.http.method = method

theorem generates_of_passes {service method : String}
    (hexact : (methodDocument service method).isExact = true)
    (hrun : Outcome.passes (fun model => Outcome.passes (fun x =>
        (x.service.name = service ∧ ∃ p ∈ x.plans, p.http.method = method) &&
          Outcome.passes (fun _ => true) (x.module restSettings Customization.standard))
        (ServicePlan.ofModel model restSettings.service restSettings.protocol))
      (Loader.modelOf (methodDocument service method)) = true) :
    Generates (methodDocument service method).compact service method := by
  obtain ⟨model, hmodel, hrun⟩ := Outcome.exists_of_passes hrun
  obtain ⟨x, hx, hrun⟩ := Outcome.exists_of_passes hrun
  obtain ⟨hnames, hrun⟩ := Bool.and_eq_true_iff.mp hrun
  obtain ⟨hservice, p, hp, hmethod⟩ := of_decide_eq_true hnames
  obtain ⟨m, hm, -⟩ := Outcome.exists_of_passes hrun
  exact ⟨model, x, m.text, p, (Model.load_compact hexact).trans hmodel,
    generate_eq_ok.mpr ⟨x, m, hx, hm, rfl⟩, hx, hservice, hp, hmethod⟩

/-- A backslash that starts no escape means itself. -/
theorem backslash_reads : ∃ (text : String) (model : Model) (x : ServicePlan) (out : String),
    Model.load text = .ok model ∧
    generate model restSettings Customization.standard = .ok out ∧
    ServicePlan.ofModel model restSettings.service restSettings.protocol = .ok x ∧
    Source.StandsIn "SERVICE = \"A\\P'I\"" out ∧
    ∀ names rest, (Source.Quotation.bare "A\\P'I").Reads names ('\n' :: rest) := by
  have hmodel : Generates (methodDocument "A\\P'I" "GET").compact "A\\P'I" "GET" :=
    generates_of_passes (by decide +kernel) (by decide +kernel)
  obtain ⟨model, x, out, p, hload, hgenerate, hx, hservice, hp, hmethod⟩ := hmodel
  obtain ⟨x', hx', hstands, hreads⟩ := literals_read_iff hgenerate
  cases hx.symm.trans hx'
  have hline : x.HasLine Customization.standard
      [.code "SERVICE = ", .literal (.bare "A\\P'I")] := by
    rw [← hservice]
    exact .service
  have htext : Source.Line.text [.code "SERVICE = ", .literal (.bare "A\\P'I")] =
      "SERVICE = \"A\\P'I\"" := by decide +kernel
  exact ⟨_, model, x, out, hload, hgenerate, hx, htext ▸ hstands _ hline, fun names rest =>
    (hreads [.code "SERVICE = "] _ [] hline names rest).mpr (by decide +kernel)⟩

/-- Whether every text that is written in a way is read back from the modules it stands in. -/
def EveryLiteral (write : String → Source.Quotation) : Prop :=
  ∀ (text : String) (model : Model), Model.load text = .ok model → ∀ settings out x,
    generate model settings Customization.standard = .ok out →
    ServicePlan.ofModel model settings.service settings.protocol = .ok x → ∀ front s back,
      x.HasLine Customization.standard (front ++ .literal (write s) :: back) → ∀ names rest,
        (write s).Reads names ((Source.Line.text back).toList ++ '\n' :: rest)

/-- A quote mark in the name of a service ends its literal, one in a method the literal of the
error, and a character outside the basic plane becomes two. -/
theorem not_every_literal_reads : ¬ EveryLiteral .bare ∧
    ¬ EveryLiteral (.formatted · Source.requestMethod) ∧ ¬ EveryLiteral .escaped := by
  have hmodel : Generates (methodDocument "A\"B" "G\"😀").compact "A\"B" "G\"😀" :=
    generates_of_passes (by decide +kernel) (by decide +kernel)
  obtain ⟨model, x, out, p, hload, hgenerate, hx, hservice, hp, hmethod⟩ := hmodel
  have hfails : ∀ write front s back,
      x.HasLine Customization.standard (front ++ .literal (write s) :: back) →
      ¬ (write s).Keeps → ¬ EveryLiteral write := by
    intro write front s back hline hkeeps hevery
    have hread := hevery _ model hload restSettings out x hgenerate hx front s back hline
      (fun _ => none) []
    exact hkeeps ((Source.reads_of_moduleLine hline _ _).mp hread)
  have hsite : ∀ role, Source.Site.operation role p ∈ Source.sites x.plans := fun role =>
    Source.mem_sites hp (Source.Site.mem_ofPlan.mpr rfl)
  refine ⟨?_, ?_, ?_⟩
  · refine hfails .bare [.code "SERVICE = "] x.service.name [] .service ?_
    rw [hservice]
    decide +kernel
  · refine hfails (.formatted · Source.requestMethod) [.code "    ", .code _] _ [.code ")"]
      (.body (hsite .readRequest) .methodError) ?_
    rw [hmethod]
    decide +kernel
  · refine hfails .escaped [.code "    ", .code _] _ [.code _]
      (.body (hsite .writeRequest) .method) ?_
    rw [hmethod]
    decide +kernel

end Wireform
