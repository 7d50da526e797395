import Wireform.Proofs.Sensitivity.Covered

/-
  Wireform sensitivity: which responses of an operation the coverage of its plan names. The walks
  start from the input and from the output. A header or status of an error is covered only where the
  output has a sensitive one at the same place.
-/

namespace Wireform

/-- Whether a location is logged with a response. -/
def Location.IsLogged (l : Location) : Prop := l.isHeader = true ∨ l = .responseCode

namespace Plan

/-- The bindings of the output and of each error. -/
def responses (plan : Plan) : List (List Binding) := plan.response :: plan.errors.map (·.2)

section

variable {model : Model} {p : Protocol} {op : Shape} {http : HttpRule} {plan : Plan}

/-- Errors are classified as responses. -/
theorem classified_of_responses (h : ofRule model p op http = .ok plan) {bs : List Binding}
    (hbs : bs ∈ plan.responses) : ∃ s, Binding.classify model .response none s = .ok bs := by
  obtain ⟨request, -, h⟩ := Outcome.bind_eq_ok.mp h
  obtain ⟨response, hresponse, h⟩ := Outcome.bind_eq_ok.mp h
  obtain ⟨input, -, h⟩ := Outcome.bind_eq_ok.mp h
  obtain ⟨output, -, h⟩ := Outcome.bind_eq_ok.mp h
  obtain ⟨shapes, -, h⟩ := Outcome.bind_eq_ok.mp h
  obtain ⟨errors, herrors, h⟩ := Outcome.bind_eq_ok.mp h
  obtain ⟨_, -, h⟩ := Outcome.bind_eq_ok.mp h
  obtain ⟨_, -, h⟩ := Outcome.bind_eq_ok.mp h
  obtain ⟨coverage, -, h⟩ := Outcome.bind_eq_ok.mp h
  cases h
  rcases List.mem_cons.mp hbs with rfl | hbs
  · obtain ⟨s, -, hclassify⟩ := Outcome.bind_eq_ok.mp hresponse
    exact ⟨s, hclassify⟩
  · obtain ⟨x, hx, rfl⟩ := List.mem_map.mp hbs
    obtain ⟨s, -, hs⟩ := Outcome.exists_of_mem_forall₂ (Outcome.mapM_eq_ok.mp herrors) hx
    obtain ⟨bs, hclassify, rfl⟩ := Outcome.map_eq_ok.mp hs
    exact ⟨s, hclassify⟩

/-- What is logged of a response is covered if the walk from the output finds a member that the
output has at the same place. -/
theorem covers_response_iff (h : ofRule model p op http = .ok plan) :
    ∃ ids, Sensitivity.memberIds model plan.output = .ok ids ∧
      ∀ bs ∈ plan.responses, ∀ b ∈ bs, b.location.IsLogged →
        (plan.coverage.Covers .response b ↔
          ∃ b' ∈ plan.response, b'.SamePlace b ∧ b'.member.id ∈ ids) := by
  have hsound := ofRule_sound h
  obtain ⟨ids, hids, hmade⟩ := hsound.exists_memberIds .response
  refine ⟨ids, hids, fun bs hbs b hb hlogged => ?_⟩
  obtain ⟨s, hclassify⟩ := classified_of_responses h hbs
  have hplace : b.location ≠ .document ∧ b.location ≠ .payload := by
    constructor
    all_goals
      intro hl
      rw [hl] at hlogged
      rcases hlogged with hlogged | hlogged <;> cases hlogged
  rw [hmade.covers_iff (fun b' hb' => (hsound.form (List.mem_of_mem_filter hb')).2)
    (Binding.classify_form hclassify hb).2 hplace]
  refine exists_congr fun b' => ?_
  rw [List.mem_filter, and_assoc]
  refine and_congr_right fun _ => ?_
  rw [and_comm]
  refine and_congr_right fun hsame => ?_
  simp only [Bool.and_eq_true, List.contains_eq_mem, decide_eq_true_eq, hsame.1, ne_eq, hplace.1,
    hplace.2, not_false_iff, and_true, decide_true]

/-- A response is covered by what the output has: its sensitive headers and its sensitive status, if
no other node has the id of the member. A header or status of an error is covered exactly where the
output has an exposed member. -/
theorem covers_responses {ix : HttpIndex} (h : (ofShape model p ix op).1 = .ok (some plan))
    {bs : List Binding} (hbs : bs ∈ plan.responses) {b : Binding} (hb : b ∈ bs)
    (hlogged : b.location.IsLogged) :
    (b ∈ plan.response → Node.Single model plan.output (.member b.member) →
      model.Marks b.member → plan.coverage.Covers .response b) ∧
    (plan.coverage.Covers .response b → ∃ b' ∈ plan.response, b'.SamePlace b) ∧
    (Node.Distinct model plan.output → (plan.coverage.Covers .response b ↔
      ∃ b' ∈ plan.response, b'.SamePlace b ∧
        Node.Exposed model plan.output (.member b'.member))) := by
  obtain ⟨http, hrule⟩ := ofShape_eq_ok h
  have hsound := ofRule_sound hrule
  obtain ⟨ids, hids, hcovers⟩ := covers_response_iff hrule
  rw [hcovers bs hbs b hb hlogged]
  refine ⟨fun hown hsingle hmarks => ⟨b, hown, .refl b, ?_⟩,
    fun ⟨b', hb', hsame, _⟩ => ⟨b', hb', hsame⟩, fun hdistinct => ?_⟩
  · have hmember := (hsound.form (d := .response) hown).1
    exact Sensitivity.mem_memberIds_of_single hmember hsingle hmarks hids
  · refine exists_congr fun b' => and_congr_right fun hb' => and_congr_right fun _ => ?_
    exact Sensitivity.mem_memberIds_iff_exposed hdistinct (hsound.form (d := .response) hb').1 hids

end

/-! ## Errors that are covered by the output, and errors that are not -/

/-- A record of this id with these members. -/
def answerRecord (id : String) (members : List Member) : Shape :=
  ⟨id, .struct, [], members, none, none, [], []⟩

/-- A model of an output, an error, and more shapes. -/
def answerModel (output error : List Member) (more : List Shape) : Model :=
  ⟨.bare "smithy.api#String" .string :: .bare "smithy.api#Integer" .integer ::
    .bare Model.unit .struct :: answerRecord "ns#Out" output :: answerRecord "ns#Failed" error ::
    more⟩

/-- The plan of the operation with this output and error. -/
def answerPlan (model : Model) : Except AnalysisError (Option Plan) :=
  (ofShape model (.rest "restJson1" .epochSeconds) .empty
    ⟨"ns#Read", .operation, [(Trait.http, .map [("method", .text "GET"), ("uri", .text "/")])], [],
      none, some "ns#Out", ["ns#Failed"], []⟩).1

/-- A sensitive member that is bound to a header. -/
def secretOf (container : String) : Member :=
  ⟨"secret", "smithy.api#String", container,
    [(Trait.httpHeader, .text "X-Secret"), (Trait.sensitive, .map [])]⟩

/-- A sensitive member that is bound to the status. -/
def codeOf (container : String) : Member :=
  ⟨"code", "smithy.api#Integer", container,
    [(Trait.httpResponseCode, .map []), (Trait.sensitive, .map [])]⟩

/-- An output with a sensitive header, and an error with the same header and a sensitive status. -/
def sharedModel : Model :=
  answerModel [secretOf "ns#Out"] [secretOf "ns#Failed", codeOf "ns#Failed"] []

/-- The header of the error is covered because the output has it too. The status is not. -/
theorem covers_sharedModel : ∃ plan, answerPlan sharedModel = .ok (some plan) ∧
    plan.coverage.Covers .response (.named (secretOf "ns#Out") .header "X-Secret") ∧
    plan.coverage.Covers .response (.named (secretOf "ns#Failed") .header "X-Secret") ∧
    ¬ plan.coverage.Covers .response (.plain (codeOf "ns#Failed") .responseCode) := by
  let own : Binding := .named (secretOf "ns#Out") .header "X-Secret"
  let shared : Binding := .named (secretOf "ns#Failed") .header "X-Secret"
  let code : Binding := .plain (codeOf "ns#Failed") .responseCode
  obtain ⟨plan, hplan, houtput, hresponses⟩ : ∃ plan, answerPlan sharedModel = .ok (some plan) ∧
      plan.output = answerRecord "ns#Out" [secretOf "ns#Out"] ∧
      plan.responses = [[own], [shared, code]] := ⟨_, rfl, rfl, rfl⟩
  have hresponse : plan.response = [own] := (List.cons.inj hresponses).1
  have hown : own ∈ plan.response := hresponse ▸ List.mem_cons_self
  have hlists : plan.response ∈ plan.responses ∧ [shared, code] ∈ plan.responses := by
    rw [hresponses, hresponse]
    exact ⟨List.mem_cons_self, List.mem_cons_of_mem _ List.mem_cons_self⟩
  have hreaches : Node.Reaches sharedModel (.shape plan.output) (.member (secretOf "ns#Out")) := by
    rw [houtput]
    exact .single ⟨_, rfl, List.mem_singleton.mpr rfl⟩
  have hmarks : sharedModel.Marks (secretOf "ns#Out") := Or.inl rfl
  have hdistinct : Node.Distinct sharedModel plan.output := houtput ▸
    Node.distinct_of_loneMember (t := .bare "smithy.api#String" .string) rfl rfl rfl (by decide)
  refine ⟨plan, hplan, ?_, ?_, fun hcovers => ?_⟩
  · exact (covers_responses hplan hlists.1 hown (Or.inl rfl)).1 hown (hdistinct.single hreaches)
      hmarks
  · exact ((covers_responses hplan hlists.2 List.mem_cons_self (Or.inl rfl)).2.2 hdistinct).mpr
      ⟨own, hown, ⟨rfl, rfl⟩, _, hreaches, hmarks, .refl⟩
  · obtain ⟨b', hb', hsame⟩ := (covers_responses hplan hlists.2
      (List.mem_cons_of_mem _ List.mem_cons_self) (Or.inr rfl)).2.1 hcovers
    rw [hresponse] at hb'
    obtain rfl := List.mem_singleton.mp hb'
    cases hsame.1

/-- Whether a sensitive member at a location of some responses is always covered. -/
def EveryCovered (l : Location) (responses : Plan → List (List Binding)) : Prop :=
  ∀ model p ix op plan, (ofShape model p ix op).1 = .ok (some plan) →
    ∀ bs ∈ responses plan, ∀ b ∈ bs, b.location = l → model.Marks b.member →
      plan.coverage.Covers .response b

theorem not_everyCovered {l : Location} (hl : l.IsLogged) {responses : Plan → List (List Binding)}
    {model : Model} {plan : Plan} (hplan : answerPlan model = .ok (some plan))
    {bs : List Binding} (hbs : bs ∈ responses plan) (hmem : bs ∈ plan.responses) {b : Binding}
    (hb : b ∈ bs) (hlocation : b.location = l) (hmarks : model.Marks b.member) {ids : List String}
    (hids : Sensitivity.memberIds model plan.output = .ok ids)
    (hnone : ∀ b' ∈ plan.response, b'.member.id ∉ ids) : ¬ EveryCovered l responses := by
  intro hevery
  obtain ⟨http, hrule⟩ := ofShape_eq_ok hplan
  obtain ⟨ids', hids', hcovers⟩ := covers_response_iff hrule
  cases hids.symm.trans hids'
  have hcovered := hevery model _ _ _ plan hplan bs hbs b hb hlocation hmarks
  obtain ⟨b', hb', -, hid⟩ := (hcovers bs hmem b hb (hlocation ▸ hl)).mp hcovered
  exact hnone b' hb' hid

/-- A sensitive member of an error is not covered by an empty output. -/
theorem not_everyCovered_of_error {l : Location} (hl : l.IsLogged) {m : Member} {b : Binding}
    (hplan : ∃ plan, answerPlan (answerModel [] [m] []) = .ok (some plan) ∧
      plan.errors.map (·.2) = [[b]] ∧
      Sensitivity.memberIds (answerModel [] [m] []) plan.output = .ok [])
    (hlocation : b.location = l) (hmarks : (answerModel [] [m] []).Marks b.member) :
    ¬ EveryCovered l responses := by
  obtain ⟨plan, hplan, herrors, hids⟩ := hplan
  have hmem : [b] ∈ plan.responses := List.mem_cons_of_mem _ (herrors ▸ List.mem_cons_self)
  exact not_everyCovered hl hplan hmem hmem List.mem_cons_self hlocation hmarks hids
    fun _ _ => List.not_mem_nil

/-- A sensitive header or status of an error is not always covered. Nor is a sensitive header of an
output, if a shape has the id of its member. -/
theorem not_every_response_covered : ¬ EveryCovered .header responses ∧
    ¬ EveryCovered .responseCode responses ∧ ¬ EveryCovered .header fun plan => [plan.response] := by
  refine ⟨?_, ?_, ?_⟩
  · exact not_everyCovered_of_error (Or.inl rfl) (m := secretOf "ns#Failed") ⟨_, rfl, rfl, rfl⟩ rfl
      (Or.inl rfl)
  · exact not_everyCovered_of_error (Or.inr rfl) (m := codeOf "ns#Failed") ⟨_, rfl, rfl, rfl⟩ rfl
      (Or.inl rfl)
  · let twice : Model := answerModel [secretOf "ns#Out",
      ⟨"other", (secretOf "ns#Out").id, "ns#Out", []⟩] [] [.bare (secretOf "ns#Out").id .string]
    obtain ⟨plan, hplan, hresponse, hids⟩ : ∃ plan, answerPlan twice = .ok (some plan) ∧
        plan.response = [.named (secretOf "ns#Out") .header "X-Secret",
          .plain ⟨"other", (secretOf "ns#Out").id, "ns#Out", []⟩ .document] ∧
        Sensitivity.memberIds twice plan.output = .ok [] := ⟨_, rfl, rfl, rfl⟩
    have hb : Binding.named (secretOf "ns#Out") .header "X-Secret" ∈ plan.response :=
      hresponse ▸ List.mem_cons_self
    exact not_everyCovered (Or.inl rfl) hplan (List.mem_singleton.mpr rfl) List.mem_cons_self hb rfl
      (Or.inl rfl) hids fun b' _ => List.not_mem_nil

end Plan

end Wireform
