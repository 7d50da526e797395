import Wireform.Command.Run
import Wireform.Proofs.Plan.Failures
import Wireform.Proofs.Source.Rendering

/-
  Wireform generation: how it can fail for a loaded model. Every lookup of a shape succeeds unless
  it is that of an enum member's target, every walk ends, and so does every hint unless lists, sets
  and maps hold each other deeper than the stack has room for. Every other failure is one that is
  documented or the fault of a value that cannot be read. Two things are outside the model: how much
  of the stack is taken when the first hint is made, for which `stackRoom` stands, and values of
  traits whose JSON type is not the one that the trait has.
-/

namespace Wireform

/-! ## Loaded models -/

/-- A model that was loaded, as it is or without the traits that a protocol cannot express. -/
def Model.IsLoaded (p : Protocol) (model : Model) : Prop :=
  ∃ text loaded, Model.load text = .ok loaded ∧ (model = loaded ∨ model = p.restrict loaded)

variable {p : Protocol} {model : Model} {service : Option Shape} {plans : List Plan}

theorem Model.IsLoaded.sound (h : model.IsLoaded p) : model.Sound := by
  obtain ⟨text, loaded, hload, rfl | rfl⟩ := h
  · exact load_sound hload
  · exact Protocol.sound_restrict (load_sound hload)

/-- Every protocol names a default checksum algorithm. -/
theorem exists_default (hp : p ∈ Protocol.all) : ∃ a, Algorithm.ofName p.checksum = .ok a := by
  have hall : ∀ q ∈ Protocol.all, q.checksum = "crc32" := by decide
  exact ⟨.crc32, by rw [hall p hp]; rfl⟩

theorem checked_of_planned (hmodel : model.IsLoaded p)
    (hservice : ∀ s, service = some s → s ∈ model.shapes)
    (hplans : Plan.ofModel model p service = .ok plans) :
    ∀ plan ∈ plans, Plan.Checked model p plan := fun _ =>
  Plan.checked_of_mem_ofModel hmodel.sound hservice hplans

/-! ## Documents -/

def reference (id : String) : Json := .map [("target", .text id)]

/-- A service with an operation, whose input has one member, and other shapes. -/
def apiDocument (member : Json) (shapes : List (String × Json)) : Json :=
  let api : Json := .map [("type", .text "service"), ("operations", .list [reference "ns#Get"])]
  let get : Json := .map [("type", .text "operation"), ("input", reference "ns#In"),
    ("traits", .map [(Trait.http, .map [("method", .text "GET"), ("uri", .text "/")])])]
  let input : Json := .map [("type", .text "structure"), ("members", .map [("value", member)])]
  .map [("shapes", .map ([("ns#Api", api), ("ns#Get", get), ("ns#In", input)] ++ shapes))]

/-- A protocol that expresses everything. -/
def restJson : Protocol := .rest "restJson1" .epochSeconds

/-! ## Lookups -/

/-- Planning a loaded model looks up a shape in vain when the first operation to end the work has a
check that does, and then it is the target of an enum's member. What has been planned is rendered
without such a lookup. -/
theorem missing_shape_iff (hmodel : model.IsLoaded p) (hp : p ∈ Protocol.all)
    (hservice : ∀ s, service = some s → s ∈ model.shapes) :
    ((∃ id, Plan.ofModel model p service = .error (.analysis (.missing (.shape id)))) ↔
      ∃ ops, model.operations service = .ok ops ∧ Outcome.FirstFault (Plan.settle model p)
        (fun op => Plan.FailsAt model p op (Plan.Check.Misses model op)) ops) ∧
    (∀ id, Plan.ofModel model p service = .error (.analysis (.missing (.shape id))) →
      ∃ s ∈ model.shapes, s.kind.IsEnum ∧ ∃ m ∈ s.members, model.Lacks m ∧ m.target = id) ∧
    ∀ plans, Plan.ofModel model p service = .ok plans → ∀ o cs id,
      render model p plans o cs ≠ .error (.plan (.analysis (.missing (.shape id)))) := by
  have hdefault := exists_default hp
  refine ⟨Plan.exists_ofModel_eq_missing hmodel.sound hservice hdefault,
    fun id => Plan.lacking_of_ofModel hmodel.sound hservice hdefault, ?_⟩
  intro plans hplans o cs id h
  have hfault : Source.Fault (.plan (.analysis (.missing (.shape id)))) :=
    Source.failsOnly_ofPlans hmodel.sound (checked_of_planned hmodel hservice hplans) _
      (Outcome.map_eq_error.mp h)
  cases hfault with
  | unreadable h => cases h

/-- An enum whose member has a target that is not declared. -/
def levelDocument : Json := apiDocument (reference "ns#Level") [("ns#Level",
  .map [("type", .text "enum"), ("members", .map [("HIGH", reference "ns#Missing")])])]

theorem ofModel_level : ∃ model, Model.load levelDocument.compact = .ok model ∧
    Plan.ofModel model restJson none = .error (.analysis (.missing (.shape "ns#Missing"))) := by
  rw [Model.load_compact (by decide +kernel)]
  have hrun : Outcome.passes (fun model =>
      Outcome.failsWith (.analysis (.missing (.shape "ns#Missing")))
        (Plan.ofModel model restJson none)) (Loader.modelOf levelDocument) = true := by
    decide +kernel
  obtain ⟨model, hmodel, h⟩ := Outcome.exists_of_passes hrun
  exact ⟨model, hmodel, Outcome.eq_error_of_failsWith h⟩

/-- The target of an enum's member is looked up in vain. -/
theorem level_lacks_target : ∃ model : Model, Model.load levelDocument.compact = .ok model ∧
    ∃ s ∈ model.shapes, s.kind.IsEnum ∧ ∃ m ∈ s.members, model.Lacks m ∧
      m.target = "ns#Missing" := by
  obtain ⟨model, hload, hmissing⟩ := ofModel_level
  have hmodel : model.IsLoaded restJson := ⟨_, model, hload, Or.inl rfl⟩
  have hservice : ∀ s, (none : Option Shape) = some s → s ∈ model.shapes := fun _ h => by cases h
  have hlookups := missing_shape_iff hmodel (by decide) hservice
  exact ⟨model, hload, hlookups.2.1 _ hmissing⟩

/-- Not every lookup in a loaded model finds a shape. -/
theorem not_lookups_succeed : ¬ ∀ (text : String) (model : Model) (p : Protocol),
    Model.load text = .ok model → p ∈ Protocol.all → ∀ id,
      Plan.ofModel model p none ≠ .error (.analysis (.missing (.shape id))) := by
  intro h
  obtain ⟨model, hload, hmissing⟩ := ofModel_level
  exact h _ model restJson hload (by decide) _ hmissing

/-! ## Ends -/

/-- The errors that generation promises: those of an unusable model or of unusable settings, and
all errors of bindings together. -/
def GenerateError.IsDocumented : GenerateError → Prop
  | .model (.missing _) | .model (.tooManyDigits _) => False
  | .model _ => True
  | .plan (.bindings _) => True
  | _ => False

/-- A command tells the errors that are promised, and any other one breaks it off. -/
theorem Command.failed_iff (e : GenerateError) :
    ((∃ message, failed e = .failure message) ↔ e.IsDocumented) ∧
      (failed e = .broken (.generate e) ↔ ¬ e.IsDocumented) := by
  have htold : ∀ {message}, (∃ m, Outcome.failure message = .failure m) ∧
      Outcome.failure message ≠ .broken (.generate e) := ⟨⟨_, rfl⟩, fun h => by cases h⟩
  have hbroken : ¬ ∃ m, Outcome.broken (.generate e) = .failure m := fun ⟨_, h⟩ => by cases h
  unfold failed
  split
  · exact ⟨iff_of_false hbroken id, iff_of_true rfl id⟩
  · exact ⟨iff_of_false hbroken id, iff_of_true rfl id⟩
  · next e hmissing hdigits =>
    have hdocumented : (GenerateError.model e).IsDocumented := by
      cases e with
      | missing e => exact absurd rfl (hmissing e)
      | tooManyDigits n => exact absurd rfl (hdigits n)
      | _ => trivial
    exact ⟨iff_of_true htold.1 hdocumented, iff_of_false htold.2 (not_not_intro hdocumented)⟩
  · exact ⟨iff_of_true htold.1 trivial, iff_of_false htold.2 (not_not_intro trivial)⟩
  · next hmodel hbindings =>
    have hother : ¬ e.IsDocumented := by
      unfold GenerateError.IsDocumented
      split
      · exact id
      · exact id
      · exact fun _ => hmodel _ rfl
      · exact fun _ => hbindings _ rfl
      · exact id
    exact ⟨iff_of_false hbroken hother, iff_of_true rfl hother⟩

theorem Source.Fault.not_isDocumented {e : GenerateError} (h : Source.Fault e) :
    ¬ e.IsDocumented := by
  cases h with
  | tooDeep | noHint | format => exact id
  | unreadable h =>
    cases h with
    | number | key => exact id

/-- A service that is selected is one of the model, and otherwise the error is documented. -/
theorem selectService_ends (model : Model) (id : Option String) :
    Outcome.FailsOnly (fun e => (GenerateError.model e).IsDocumented) (model.selectService id) ∧
      ∀ s, model.selectService id = .ok s → s ∈ model.shapes := by
  unfold Model.selectService
  split
  · split
    · next hfind =>
      refine ⟨Outcome.failsOnly_ok _, ?_⟩
      rintro _ ⟨⟩
      exact List.mem_of_find?_eq_some hfind
    · exact ⟨Outcome.failsOnly_error trivial, fun _ h => by cases h⟩
  · split
    · next s hservices =>
      refine ⟨Outcome.failsOnly_ok _, ?_⟩
      rintro _ ⟨⟩
      have hs : s ∈ model.services := hservices ▸ List.mem_cons_self
      exact (List.mem_filter.mp (List.mem_mergeSort.mp hs)).1
    · exact ⟨Outcome.failsOnly_error trivial, fun _ h => by cases h⟩

/-- A protocol that is resolved is one of all, and otherwise the error is documented. -/
theorem resolve_ends (s : Shape) (override : Option String) :
    Outcome.FailsOnly (fun e => (GenerateError.model e).IsDocumented)
        (Protocol.resolve s override) ∧
      ∀ p, Protocol.resolve s override = .ok p → p ∈ Protocol.all := by
  unfold Protocol.resolve Protocol.ofName
  split
  · split
    · next hfind =>
      refine ⟨Outcome.failsOnly_ok _, ?_⟩
      rintro _ ⟨⟩
      exact List.mem_of_find?_eq_some hfind
    · exact ⟨Outcome.failsOnly_error trivial, fun _ h => by cases h⟩
  · split
    · next hfind =>
      refine ⟨Outcome.failsOnly_ok _, ?_⟩
      rintro _ ⟨⟩
      exact List.mem_of_find?_eq_some hfind
    · exact ⟨Outcome.failsOnly_error trivial, fun _ h => by cases h⟩

/-- Planning ends as documented when no operation ends it at a lookup in vain. -/
theorem failsOnly_planned (hmodel : model.IsLoaded p) (hp : p ∈ Protocol.all)
    (hservice : ∀ s, service = some s → s ∈ model.shapes) :
    Outcome.FailsOnly GenerateError.IsDocumented
        ((Plan.ofModel model p service).mapError .plan) ↔
      ∀ ops, model.operations service = .ok ops → ∀ op ∈ ops,
        ¬ Plan.FailsAt model p op fun c => c.Misses model op ∨ c.Misnames model p := by
  have hsound := hmodel.sound
  obtain ⟨ops, hops, hmem⟩ := hsound.exists_operations hservice
  have hanalysis : Outcome.FailsOnly GenerateError.IsDocumented
        ((Plan.ofModel model p service).mapError .plan) ↔
      ∀ e, Plan.ofModel model p service ≠ .error (.analysis e) := by
    rw [Outcome.failsOnly_mapError]
    constructor
    · exact fun h e => h (.analysis e)
    · rintro h (es | e) he
      · trivial
      · exact h e he
  have hsettled : (∀ e, Plan.ofModel model p service ≠ .error (.analysis e)) ↔
      ∃ rs, ops.mapM (Plan.settle model p) = .ok rs := by
    rw [← Outcome.failsOnly_false]
    refine forall_congr' fun e => not_congr ?_
    rw [Plan.ofModel_eq_analysis hsound hservice, Outcome.mapM_eq_error]
    simp only [hops, Except.ok.injEq, exists_eq_left']
  rw [hanalysis, hsettled, Outcome.exists_mapM_eq_ok]
  simp only [hops, Except.ok.injEq, forall_eq']
  refine forall₂_congr fun op hop => ?_
  rw [← Plan.exists_settle_eq_error_iff hsound (hmem op hop) (exists_default hp),
    ← Outcome.failsOnly_false, not_exists]
  exact Iff.rfl

/-- Rendering fails with no error that is documented. -/
theorem failsOnly_rendered (hmodel : model.IsLoaded p)
    (hservice : ∀ s, service = some s → s ∈ model.shapes)
    (hplans : Plan.ofModel model p service = .ok plans) {o : Source.ModuleOptions}
    {cs : List Customization} :
    Outcome.FailsOnly GenerateError.IsDocumented (render model p plans o cs) ↔
      Source.Writable model plans := by
  have hchecked := checked_of_planned hmodel hservice hplans
  let w : Source.Writer := ⟨model, p, cs⟩
  have hwritable : (∃ m, Source.Module.ofPlans w plans o = .ok m) ↔ Source.Writable model plans :=
    Source.exists_ofPlans_iff hmodel.sound hchecked
  have hfault : Outcome.FailsOnly Source.Fault (render model p plans o cs) :=
    (Source.failsOnly_ofPlans hmodel.sound hchecked).map _
  rw [← hwritable, ← Outcome.exists_map_eq_ok, ← Outcome.failsOnly_false]
  exact ⟨fun h e he => (hfault e he).not_isDocumented (h e he), fun h => h.imp fun _ => False.elim⟩

/-- No check of an operation looks up a shape or the name of a timestamp format in vain, and what
has been planned can be written. -/
structure Generable (model : Model) (p : Protocol) (service : Shape) : Prop where
  found : ∀ ops, model.operations (some service) = .ok ops → ∀ op ∈ ops,
    ¬ Plan.FailsAt model p op fun c => c.Misses model op ∨ c.Misnames model p
  written : ∀ plans, Plan.ofModel model p (some service) = .ok plans →
    Source.Writable model plans

/-- A model is generated for a service under a protocol. -/
def Selects (model : Model) (settings : Settings) (p : Protocol) (service : Shape) : Prop :=
  ∃ s, model.selectService settings.service = .ok s ∧
    Protocol.resolve s settings.protocol = .ok p ∧ (p.restrict model).lookup s.id = .ok service

theorem generate_eq (settings : Settings) (cs : List Customization) :
    generate model settings cs = (do
      let s ← (model.selectService settings.service).mapError .model
      let p ← (Protocol.resolve s settings.protocol).mapError .model
      let service ← GenerateError.lift ((p.restrict model).lookup s.id)
      let plans ← (Plan.ofModel (p.restrict model) p (some service)).mapError .plan
      render (p.restrict model) p plans ⟨service.name, settings.library, settings.doc⟩ cs) := by
  unfold generate ServicePlan.ofModel
  simp only [bind_assoc, pure_bind]

/-- Behind the choice of a service and a protocol. -/
theorem failsOnly_selected {text : String} (hload : Model.load text = .ok model)
    {settings : Settings} {service : Shape} (hselects : Selects model settings p service)
    {o : Source.ModuleOptions} {cs : List Customization} :
    Outcome.FailsOnly GenerateError.IsDocumented (do
        let plans ← (Plan.ofModel (p.restrict model) p (some service)).mapError .plan
        render (p.restrict model) p plans o cs) ↔
      Generable (p.restrict model) p service := by
  obtain ⟨s, -, hresolve, hlookup⟩ := hselects
  have hrestricted : (p.restrict model).IsLoaded p := ⟨text, model, hload, Or.inr rfl⟩
  have hservice : ∀ t, some service = some t → t ∈ (p.restrict model).shapes := by
    rintro t ⟨⟩
    exact Model.mem_shapes_of_get (Outcome.mapError_eq_ok.mp hlookup)
  rw [Outcome.failsOnly_bind,
    failsOnly_planned hrestricted ((resolve_ends _ _).2 p hresolve) hservice]
  constructor
  · rintro ⟨hfound, h⟩
    refine ⟨hfound, fun plans hplans => ?_⟩
    exact (failsOnly_rendered hrestricted hservice hplans).mp
      (h plans (Outcome.mapError_eq_ok.mpr hplans))
  · rintro ⟨hfound, h⟩
    refine ⟨hfound, fun plans hplans => ?_⟩
    have hplans := Outcome.mapError_eq_ok.mp hplans
    exact (failsOnly_rendered hrestricted hservice hplans).mpr (h plans hplans)

/-- Generation from a loaded model gives a text or an error that is documented, unless a check looks
up a shape or a timestamp format in vain, or what has been planned cannot be written. -/
theorem documented_iff {text : String} (hload : Model.load text = .ok model) (settings : Settings)
    (cs : List Customization) :
    Outcome.FailsOnly GenerateError.IsDocumented (generate model settings cs) ↔
      ∀ p service, Selects model settings p service →
        Generable (p.restrict model) p service := by
  rw [generate_eq]
  constructor
  · rintro h p service hselects
    obtain ⟨s, hselect, hresolve, hlookup⟩ := hselects
    have h := (Outcome.failsOnly_bind.mp h).2 s (Outcome.mapError_eq_ok.mpr hselect)
    have h := (Outcome.failsOnly_bind.mp h).2 p (Outcome.mapError_eq_ok.mpr hresolve)
    have h := (Outcome.failsOnly_bind.mp h).2 service (Source.lift_eq_ok.mpr hlookup)
    exact (failsOnly_selected hload ⟨s, hselect, hresolve, hlookup⟩).mp h
  · intro h
    have hselect := selectService_ends model settings.service
    refine .bind (Outcome.failsOnly_mapError.mpr hselect.1) fun s hs =>
      .bind (Outcome.failsOnly_mapError.mpr (resolve_ends s _).1) fun p hp =>
      .bind ?_ fun service hservice => ?_
    · have hmem : s ∈ model.shapes := hselect.2 s (Outcome.mapError_eq_ok.mp hs)
      have hids : (p.restrict model).ids = model.ids := Protocol.ids_restrict
      have hid : s.id ∈ (p.restrict model).ids := hids ▸ List.mem_map_of_mem hmem
      obtain ⟨service, -, hlookup⟩ := Model.exists_lookup hid
      exact Source.failsOnly_lift hlookup
    · have hselects : Selects model settings p service :=
        ⟨s, Outcome.mapError_eq_ok.mp hs, Outcome.mapError_eq_ok.mp hp,
          Source.lift_eq_ok.mp hservice⟩
      exact (failsOnly_selected hload hselects).mpr (h p service hselects)

/-- A header with a timestamp in a format that does not exist. -/
def whenDocument : Json := apiDocument (.map [("target", .text "smithy.api#Timestamp"),
  ("traits", .map [(Trait.httpHeader, .text "X-When"),
    (Trait.timestampFormat, .text "never")])]) []

def restSettings : Settings := ⟨none, some "restJson1", none, none⟩

theorem generate_when : ∃ model, Model.load whenDocument.compact = .ok model ∧
    generate model restSettings [] = .error (.plan (.analysis (.timestampFormat "'never'"))) := by
  rw [Model.load_compact (by decide +kernel)]
  have hrun : Outcome.passes (fun model =>
      Outcome.failsWith (.plan (.analysis (.timestampFormat "'never'")))
        (generate model restSettings [])) (Loader.modelOf whenDocument) = true := by
    decide +kernel
  obtain ⟨model, hmodel, h⟩ := Outcome.exists_of_passes hrun
  exact ⟨model, hmodel, Outcome.eq_error_of_failsWith h⟩

/-- A module that cannot be generated, with an error that is not documented. -/
theorem when_not_generable : ∃ model : Model, Model.load whenDocument.compact = .ok model ∧
    ∃ p service, Selects model restSettings p service ∧
      ¬ Generable (p.restrict model) p service := by
  obtain ⟨model, hload, hgenerate⟩ := generate_when
  refine ⟨model, hload, ?_⟩
  by_contra hnone
  simp only [not_exists, not_and, not_not] at hnone
  exact (documented_iff hload restSettings []).mpr hnone _ hgenerate

/-- Not every error of generation is documented. -/
theorem not_every_error_documented : ¬ ∀ (text : String) (model : Model),
    Model.load text = .ok model → ∀ settings cs,
      Outcome.FailsOnly GenerateError.IsDocumented (generate model settings cs) := by
  intro h
  obtain ⟨model, hload, hgenerate⟩ := generate_when
  exact h _ model hload restSettings [] _ hgenerate

end Wireform
