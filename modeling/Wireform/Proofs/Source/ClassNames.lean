import Wireform.Proofs.Name
import Wireform.Proofs.Source.Ambiguity
import Wireform.Proofs.Source.Ordering

/-
  Wireform source text: which names in a module agree. A class is named for its shape without the
  namespace, a field for its member and an enum's member for its value, each by a spelling that
  forgets case and punctuation. Nothing else makes two names agree, and nothing sets them apart.
-/

namespace Wireform

namespace Source

/-- The names of the enums and data classes of a module. -/
def Module.classNames (m : Module) : List String :=
  m.enums.map EnumClass.name ++ m.classes.map DataClass.name

def DataClass.fieldNames (c : DataClass) : List String := c.fields.map Field.name

def EnumClass.memberNames (e : EnumClass) : List String := e.members.map Prod.fst

/-- Names are distinct when what they agree in is. -/
theorem nodup_map_congr {α β γ : Type} {f : α → β} {g : α → γ} (h : ∀ a b, f a = f b ↔ g a = g b)
    (xs : List α) : (xs.map f).Nodup ↔ (xs.map g).Nodup := by
  unfold List.Nodup
  rw [List.pairwise_map, List.pairwise_map]
  simp only [ne_eq, h]

section

variable {model : Model} {p : Protocol} {s : Shape} {defined : List String}

theorem fieldNames_of_dataClass {c : DataClass}
    (h : DataClass.ofShape model p defined s = .ok c) : c.fieldNames = s.members.map fieldOf := by
  refine Outcome.map_eq_of_forall₂ (parts_of_dataClass h).2 fun m f hf => ?_
  obtain ⟨t, -, hf⟩ := Outcome.bind_eq_ok.mp hf
  obtain ⟨hint, -, hf⟩ := Outcome.bind_eq_ok.mp hf
  obtain ⟨config, -, hf⟩ := Outcome.bind_eq_ok.mp hf
  rw [← Except.ok.inj hf]

theorem names_of_enumClass {e : EnumClass} (h : EnumClass.ofShape s = .ok e) :
    e.name = classOf s ∧ ∃ values, s.enumValues = .ok values ∧
      e.memberNames = values.map fun v => Name.enumMember v.1 := by
  obtain ⟨values, hvalues, h⟩ := Outcome.bind_eq_ok.mp h
  obtain ⟨members, hmembers, h⟩ := Outcome.bind_eq_ok.mp h
  rw [← Except.ok.inj h]
  dsimp only
  refine ⟨rfl, values, Outcome.mapError_eq_ok.mp (lift_eq_ok.mp hvalues), ?_⟩
  refine Outcome.map_eq_of_forall₂ (Outcome.mapM_eq_ok.mp hmembers) fun v member hmember => ?_
  obtain ⟨text, -, rfl⟩ := Outcome.map_eq_ok.mp hmember
  dsimp only

end

/-- A module has a class for each shape that is collected. -/
theorem classes_of_ofPlans {w : Writer} {plans : List Plan} {o : ModuleOptions} {m : Module}
    (h : Module.ofPlans w plans o = .ok m) :
    ∃ enums structs, collect w.model (roots plans) = .ok (enums, structs) ∧
      List.Forall₂ (fun s c => c.name = classOf s ∧ c.fieldNames = s.members.map fieldOf) structs
        m.classes ∧
      List.Forall₂ (fun s e => e.name = classOf s ∧ ∃ values, s.enumValues = .ok values ∧
        e.memberNames = values.map fun v => Name.enumMember v.1) enums m.enums := by
  obtain ⟨enums, structs, -, hcollect, hclasses, -, -, hwritten, -⟩ := written_of_ofPlans h
  have hnamed : ∀ {defined s c}, DataClass.ofShape w.model w.protocol defined s = .ok c →
      c.name = classOf s ∧ c.fieldNames = s.members.map fieldOf := fun hc =>
    ⟨(parts_of_dataClass hc).1, fieldNames_of_dataClass hc⟩
  exact ⟨enums, structs, hcollect, forall₂_of_dataClasses hnamed hclasses,
    (Outcome.mapM_eq_ok.mp hwritten).imp fun _ _ => names_of_enumClass⟩

end Source

/-! ## Generated modules -/

theorem sound_of_servicePlan {text : String} {model : Model} (hload : Model.load text = .ok model)
    {service protocol : Option String} {x : ServicePlan}
    (h : ServicePlan.ofModel model service protocol = .ok x) : x.model.Sound :=
  (planned_of_servicePlan hload h).1.sound

/-- A generated module has a class for each enum, structure and union that is collected, each once.
Two classes have one name exactly if the names of their shapes have one camel-case spelling, two
fields or enum members of a class exactly if the names in the model have one spelling in small
words. -/
theorem names_distinct_iff {text : String} {model : Model} (hload : Model.load text = .ok model)
    {settings : Settings} {cs : List Customization} {out : String}
    (hgenerate : generate model settings cs = .ok out) :
    ∃ x m enums structs, ServicePlan.ofModel model settings.service settings.protocol = .ok x ∧
      x.module settings cs = .ok m ∧ m.text = out ∧
      Source.collect x.model (Source.roots x.plans) = .ok (enums, structs) ∧
      ((enums ++ structs).map Shape.id).Nodup ∧
      m.classNames = (enums ++ structs).map Source.classOf ∧
      (m.classNames.Nodup ↔ ((enums ++ structs).map fun s => Name.camel s.name).Nodup) ∧
      List.Forall₂ (fun s c => c.fieldNames.Nodup ↔
        (s.members.map fun member => Name.snake member.name).Nodup) structs m.classes ∧
      List.Forall₂ (fun s e => ∃ values, s.enumValues = .ok values ∧
        (e.memberNames.Nodup ↔ (values.map fun v => Name.snake v.1).Nodup)) enums m.enums := by
  obtain ⟨x, m, hx, hm, hout⟩ := generate_eq_ok.mp hgenerate
  obtain ⟨enums, structs, hcollect, hclasses, henums⟩ := Source.classes_of_ofPlans hm
  have honce := Source.collected_once (sound_of_servicePlan hload hx)
    (Source.roots_mem (checked_of_servicePlan hload hx)) hcollect
  have hnames : m.classNames = (enums ++ structs).map Source.classOf := by
    unfold Source.Module.classNames
    rw [List.map_append, Outcome.map_eq_of_forall₂ henums fun _ _ h => h.1,
      Outcome.map_eq_of_forall₂ hclasses fun _ _ h => h.1]
  refine ⟨x, m, enums, structs, hx, hm, hout, hcollect, honce, hnames, ?_, ?_, ?_⟩
  · rw [hnames]
    exact Source.nodup_map_congr (fun _ _ => Name.className_inj) _
  · refine hclasses.imp fun s c ⟨_, hfields⟩ => ?_
    rw [hfields]
    exact Source.nodup_map_congr (fun _ _ => Name.field_inj) _
  · refine henums.imp fun s e ⟨_, values, hvalues, hmembers⟩ => ⟨values, hvalues, ?_⟩
    rw [hmembers]
    exact Source.nodup_map_congr (fun _ _ => Name.enumMember_inj) _

/-- A service whose input refers to two structures of one name, and to an enum. -/
def clashDocument (second field value : String) : Json :=
  let record : Json := .map [("type", .text "structure"), ("members", .map [])]
  let pair : Json := .map [("type", .text "structure"), ("members", .map [
    ("fooBar", reference "ns#Item"), (field, reference second)])]
  let level : Json := .map [("type", .text "enum"),
    ("members", .map [("LOW", reference Model.unit), (value, reference Model.unit)])]
  let both : Json := .map [("type", .text "structure"), ("members", .map [
    ("pair", reference "ns#Pair"), ("level", reference "ns#Level")])]
  apiDocument (reference "ns#Both") [("ns#Both", both), ("ns#Pair", pair), ("ns#Level", level),
    ("ns#Item", record), (second, record)]

/-- Names that differ in more than case, punctuation and namespace stay apart. -/
theorem plain_names_distinct : ∃ (model : Model) (x : ServicePlan) (m : Source.Module)
    (out : String), Model.load (clashDocument "ns#Thing" "foo" "HIGH").compact = .ok model ∧
    generate model restSettings Customization.standard = .ok out ∧
    ServicePlan.ofModel model restSettings.service restSettings.protocol = .ok x ∧
    x.module restSettings Customization.standard = .ok m ∧ m.text = out ∧
    m.classNames = ["Level", "Item", "Thing", "Pair", "Both", "In", "Unit"] ∧
    ∃ enums structs, Source.collect x.model (Source.roots x.plans) = .ok (enums, structs) ∧
      ((enums ++ structs).map fun s => Name.camel s.name).Nodup := by
  have hload := Model.load_compact (j := clashDocument "ns#Thing" "foo" "HIGH") (by decide +kernel)
  have hrun : Outcome.passes (fun model => Outcome.passes (fun x => Outcome.passes
      (fun m => m.classNames = ["Level", "Item", "Thing", "Pair", "Both", "In", "Unit"])
      (ServicePlan.module x restSettings Customization.standard))
      (ServicePlan.ofModel model restSettings.service restSettings.protocol))
      (Loader.modelOf (clashDocument "ns#Thing" "foo" "HIGH")) = true := by
    decide +kernel
  obtain ⟨model, hmodel, h⟩ := Outcome.exists_of_passes hrun
  obtain ⟨x, hx, h⟩ := Outcome.exists_of_passes h
  obtain ⟨m, hm, h⟩ := Outcome.exists_of_passes h
  have hload := hload.trans hmodel
  have hgenerate : generate model restSettings Customization.standard = .ok m.text :=
    generate_eq_ok.mpr ⟨x, m, hx, hm, rfl⟩
  obtain ⟨x', m', enums, structs, hx', hm', -, hcollect, -, -, hiff, -, -⟩ :=
    names_distinct_iff hload hgenerate
  cases hx.symm.trans hx'
  cases hm.symm.trans hm'
  have hnames := of_decide_eq_true h
  exact ⟨model, x, m, m.text, hload, hgenerate, hx, hm, rfl, hnames, enums, structs, hcollect,
    hiff.mp (hnames ▸ by decide)⟩

/-- Whether every module that is generated is of a kind. -/
def EveryModule (good : Source.Module → Prop) : Prop :=
  ∀ (text : String) (model : Model), Model.load text = .ok model → ∀ settings x m,
    ServicePlan.ofModel model settings.service settings.protocol = .ok x →
      x.module settings Customization.standard = .ok m → good m

/-- Two classes, two fields of a class and two members of an enum can have one name. -/
theorem not_every_name_distinct : ¬ EveryModule (fun m => m.classNames.Nodup) ∧
    ¬ EveryModule (fun m => ∀ c ∈ m.classes, c.fieldNames.Nodup) ∧
    ¬ EveryModule fun m => ∀ e ∈ m.enums, e.memberNames.Nodup := by
  have hload := Model.load_compact (j := clashDocument "other#Item" "foo_bar" "low")
    (by decide +kernel)
  have hrun : Outcome.passes (fun model => Outcome.passes (fun x => Outcome.passes
      (fun m => !decide m.classNames.Nodup && !(m.classes.all fun c => decide c.fieldNames.Nodup) &&
        !(m.enums.all fun e => decide e.memberNames.Nodup))
      (ServicePlan.module x restSettings Customization.standard))
      (ServicePlan.ofModel model restSettings.service restSettings.protocol))
      (Loader.modelOf (clashDocument "other#Item" "foo_bar" "low")) = true := by
    decide +kernel
  obtain ⟨model, hmodel, hrun⟩ := Outcome.exists_of_passes hrun
  obtain ⟨x, hx, hrun⟩ := Outcome.exists_of_passes hrun
  obtain ⟨m, hm, hrun⟩ := Outcome.exists_of_passes hrun
  have hload := hload.trans hmodel
  simp only [Bool.and_eq_true, Bool.not_eq_true', decide_eq_false_iff_not, List.all_eq_false,
    decide_eq_true_eq] at hrun
  obtain ⟨⟨hclasses, c, hc, hfields⟩, e, he, hmembers⟩ := hrun
  exact ⟨fun h => hclasses (h _ model hload restSettings x m hx hm),
    fun h => hfields (h _ model hload restSettings x m hx hm c hc),
    fun h => hmembers (h _ model hload restSettings x m hx hm e he)⟩

end Wireform
