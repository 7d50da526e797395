import Wireform.Plan
import Wireform.Proofs.Binding.Form
import Wireform.Proofs.Sensitivity.Marks

/-
  Wireform sensitivity: which bindings of a plan its coverage names. A binding of a sensitive member
  or of a member with a sensitive target is covered. A mark further down, on the elements of a list
  or the values of a map, covers nothing unless the graph leads from it back to a bound member.
-/

namespace Wireform

/-! ## What a coverage names -/

namespace Coverage

def headers (c : Coverage) : Direction → List String
  | .request => c.requestHeaders
  | .response => c.responseHeaders

def prefixes (c : Coverage) : Direction → List String
  | .request => c.requestPrefixes
  | .response => c.responsePrefixes

/-- Whether the place of a binding in a message is named. -/
def Covers (c : Coverage) (direction : Direction) (b : Binding) : Prop :=
  match b.location with
  | .header => Text.lowered b.name ∈ c.headers direction
  | .prefixHeaders => Text.lowered b.name ∈ c.prefixes direction
  | .query => b.name ∈ c.queryKeys
  | .queryParams => c.queryParams = true
  | .label => ∃ i ∈ c.path, b.index = some i
  | .responseCode => c.statusCode = true
  | .payload | .document => False

/-- The coverage of a direction is made from these bindings. -/
structure MadeFrom (c : Coverage) (direction : Direction) (kept : List Binding) : Prop where
  headers : c.headers direction = namesAt .header kept
  prefixes : c.prefixes direction = namesAt .prefixHeaders kept
  queryKeys : direction = .request →
    c.queryKeys = sorted ((Binding.located .query kept).map (·.name))
  queryParams : direction = .request → c.queryParams = kept.any (·.location = .queryParams)
  path : direction = .request → c.path = (kept.filterMap (·.index)).mergeSort
  statusCode : direction = .response → c.statusCode = kept.any (·.location = .responseCode)

theorem mem_sorted {t : String} {ts : List String} : t ∈ sorted ts ↔ t ∈ ts := by
  unfold sorted
  rw [List.mem_mergeSort, List.mem_eraseDups]

theorem mem_located {l : Location} {b : Binding} {bs : List Binding} :
    b ∈ Binding.located l bs ↔ b ∈ bs ∧ b.location = l := by
  unfold Binding.located
  rw [List.mem_filter, decide_eq_true_eq]

theorem mem_namesAt {t : String} {l : Location} {bs : List Binding} :
    t ∈ namesAt l bs ↔ ∃ b ∈ bs, b.location = l ∧ Text.lowered b.name = t := by
  unfold namesAt
  rw [mem_sorted, List.mem_map]
  simp only [mem_located, and_assoc]

end Coverage

/-- Whether two bindings stand for the same place in a message. -/
def Binding.SamePlace (b b' : Binding) : Prop :=
  b.location = b'.location ∧ match b'.location with
    | .header | .prefixHeaders => Text.lowered b.name = Text.lowered b'.name
    | .query => b.name = b'.name
    | .label => b.index = b'.index
    | _ => True

theorem Binding.SamePlace.refl (b : Binding) : b.SamePlace b := by
  refine ⟨rfl, ?_⟩
  split
  · rfl
  · rfl
  · rfl
  · rfl
  · trivial

theorem Coverage.MadeFrom.covers_iff {c : Coverage} {direction : Direction} {kept : List Binding}
    (h : c.MadeFrom direction kept) (hkept : ∀ b ∈ kept, b.WellFormed direction) {b : Binding}
    (hb : b.WellFormed direction) (hplace : b.location ≠ .document ∧ b.location ≠ .payload) :
    c.Covers direction b ↔ ∃ b' ∈ kept, b'.SamePlace b := by
  obtain ⟨hdocument, hpayload⟩ := hplace
  unfold Covers Binding.SamePlace
  cases hl : b.location with
  | header =>
    dsimp only
    rw [h.headers, mem_namesAt]
  | prefixHeaders =>
    dsimp only
    rw [h.prefixes, mem_namesAt]
  | query =>
    dsimp only
    rw [h.queryKeys (hb.eq_request (by rw [hl]; rfl)), mem_sorted, List.mem_map]
    simp only [mem_located, and_assoc]
  | queryParams =>
    dsimp only
    rw [h.queryParams (hb.eq_request (by rw [hl]; rfl)), List.any_eq_true]
    simp
  | label =>
    dsimp only
    rw [h.path (hb.eq_request (by rw [hl]; rfl))]
    simp only [List.mem_mergeSort, List.mem_filterMap]
    constructor
    · rintro ⟨i, ⟨b', hb', hi⟩, hbi⟩
      refine ⟨b', hb', ((hkept b' hb').indexed.mp (by rw [hi]; rfl)), ?_⟩
      rw [hi, hbi]
    · rintro ⟨b', hb', -, hi⟩
      obtain ⟨i, hbi⟩ := Option.isSome_iff_exists.mp (hb.indexed.mpr hl)
      exact ⟨i, ⟨b', hb', hi.trans hbi⟩, hbi⟩
  | responseCode =>
    dsimp only
    rw [h.statusCode (hb.eq_response (by rw [hl]; rfl)), List.any_eq_true]
    simp
  | payload => exact absurd hl hpayload
  | document => exact absurd hl hdocument

/-! ## The coverage of a plan -/

namespace Plan

/-- The input or the output. -/
def root (p : Plan) : Direction → Shape
  | .request => p.input
  | .response => p.output

def bindings (p : Plan) : Direction → List Binding
  | .request => p.request
  | .response => p.response

theorem ofShape_eq_ok {model : Model} {p : Protocol} {ix : HttpIndex} {op : Shape} {plan : Plan}
    (h : (ofShape model p ix op).1 = .ok (some plan)) :
    ∃ http, ofRule model p op http = .ok plan := by
  unfold ofShape at h
  dsimp only at h
  split at h
  · cases h
  · cases h
  · next http _ =>
    obtain ⟨q, hq, he⟩ := Outcome.map_eq_ok.mp h
    cases he
    exact ⟨http, hq⟩

/-- What a plan is made of. -/
structure Sound (model : Model) (plan : Plan) : Prop where
  classified : ∀ d, ∃ uri, Binding.classify model d uri (plan.root d) = .ok (plan.bindings d)
  covered : Coverage.ofBindings model plan.input plan.request plan.output plan.response =
    .ok plan.coverage

theorem ofRule_sound {model : Model} {p : Protocol} {op : Shape} {http : HttpRule} {plan : Plan}
    (h : ofRule model p op http = .ok plan) : Sound model plan := by
  obtain ⟨request, hrequest, h⟩ := Outcome.bind_eq_ok.mp h
  obtain ⟨response, hresponse, h⟩ := Outcome.bind_eq_ok.mp h
  obtain ⟨input, hinput, h⟩ := Outcome.bind_eq_ok.mp h
  obtain ⟨output, houtput, h⟩ := Outcome.bind_eq_ok.mp h
  obtain ⟨_, -, h⟩ := Outcome.bind_eq_ok.mp h
  obtain ⟨_, -, h⟩ := Outcome.bind_eq_ok.mp h
  obtain ⟨_, -, h⟩ := Outcome.bind_eq_ok.mp h
  obtain ⟨_, -, h⟩ := Outcome.bind_eq_ok.mp h
  obtain ⟨coverage, hcoverage, h⟩ := Outcome.bind_eq_ok.mp h
  cases h
  obtain ⟨s, hs, hrequest⟩ := Outcome.bind_eq_ok.mp hrequest
  obtain ⟨t, ht, hresponse⟩ := Outcome.bind_eq_ok.mp hresponse
  rw [hinput] at hs
  rw [houtput] at ht
  cases hs
  cases ht
  refine ⟨fun d => ?_, hcoverage⟩
  cases d with
  | request => exact ⟨_, hrequest⟩
  | response => exact ⟨_, hresponse⟩

theorem Sound.form {model : Model} {plan : Plan} (h : Sound model plan) {d : Direction}
    {b : Binding} (hb : b ∈ plan.bindings d) :
    b.member ∈ (plan.root d).members ∧ b.WellFormed d := by
  obtain ⟨uri, huri⟩ := h.classified d
  exact Binding.classify_form huri hb

/-- The coverage names the places of the bindings whose members the walks find. -/
theorem Sound.exists_memberIds {model : Model} {plan : Plan} (h : Sound model plan)
    (d : Direction) : ∃ ids, Sensitivity.memberIds model (plan.root d) = .ok ids ∧
      plan.coverage.MadeFrom d ((plan.bindings d).filter fun b =>
        ids.contains b.member.id && b.location ≠ .document && b.location ≠ .payload) := by
  obtain ⟨request, hrequest, hc⟩ := Outcome.bind_eq_ok.mp h.covered
  obtain ⟨response, hresponse, hc⟩ := Outcome.bind_eq_ok.mp hc
  obtain ⟨inputIds, hinput, hrequest⟩ := Outcome.bind_eq_ok.mp hrequest
  obtain ⟨outputIds, houtput, hresponse⟩ := Outcome.bind_eq_ok.mp hresponse
  have hcoverage := Except.ok.inj hc
  cases hrequest
  cases hresponse
  cases d with
  | request =>
    refine ⟨inputIds, hinput, ?_⟩
    rw [← hcoverage]
    exact ⟨rfl, rfl, fun _ => rfl, fun _ => rfl, fun _ => rfl, fun hd => by cases hd⟩
  | response =>
    refine ⟨outputIds, houtput, ?_⟩
    rw [← hcoverage]
    exact ⟨rfl, rfl, fun hd => (by cases hd), fun hd => (by cases hd), fun hd => (by cases hd),
      fun _ => rfl⟩

/-- A binding is covered if and only if the walks find a member that is bound to its place. -/
theorem Sound.covers_iff {model : Model} {plan : Plan} (h : Sound model plan) (d : Direction) :
    ∃ ids, Sensitivity.memberIds model (plan.root d) = .ok ids ∧
      ∀ b ∈ plan.bindings d, b.location.isText = true →
        (plan.coverage.Covers d b ↔
          ∃ b' ∈ plan.bindings d, b'.SamePlace b ∧ b'.member.id ∈ ids) := by
  obtain ⟨ids, hids, hmade⟩ := h.exists_memberIds d
  refine ⟨ids, hids, fun b hb htext => ?_⟩
  have hplace : b.location ≠ .document ∧ b.location ≠ .payload := by
    constructor
    · intro hl
      rw [hl] at htext
      cases htext
    · intro hl
      rw [hl] at htext
      cases htext
  rw [hmade.covers_iff (fun b' hb' => (h.form (List.mem_of_mem_filter hb')).2) (h.form hb).2 hplace]
  constructor
  · rintro ⟨b', hb', hsame⟩
    obtain ⟨hb', hkept⟩ := List.mem_filter.mp hb'
    simp only [Bool.and_eq_true, List.contains_eq_mem, decide_eq_true_eq] at hkept
    exact ⟨b', hb', hsame, hkept.1.1⟩
  · rintro ⟨b', hb', hsame, hid⟩
    refine ⟨b', List.mem_filter.mpr ⟨hb', ?_⟩, hsame⟩
    simp only [Bool.and_eq_true, List.contains_eq_mem, decide_eq_true_eq]
    rw [hsame.1]
    exact ⟨⟨hid, hplace.1⟩, hplace.2⟩

/-! ## Sensitive members are covered -/

/-- A binding whose member or its target is sensitive is covered, if no other node has the id of the
member. Where all ids differ, the covered bindings are those at the place of an exposed member. -/
theorem covers_sensitive {model : Model} {p : Protocol} {ix : HttpIndex} {op : Shape} {plan : Plan}
    (h : (ofShape model p ix op).1 = .ok (some plan)) (d : Direction) {b : Binding}
    (hb : b ∈ plan.bindings d) (htext : b.location.isText = true) :
    (Node.Single model (plan.root d) (.member b.member) → model.Marks b.member →
      plan.coverage.Covers d b) ∧
    (Node.Distinct model (plan.root d) → (plan.coverage.Covers d b ↔
      ∃ b' ∈ plan.bindings d, b'.SamePlace b ∧
        Node.Exposed model (plan.root d) (.member b'.member))) := by
  obtain ⟨http, hrule⟩ := ofShape_eq_ok h
  have hsound := ofRule_sound hrule
  obtain ⟨ids, hids, hcovers⟩ := hsound.covers_iff d
  rw [hcovers b hb htext]
  refine ⟨fun hsingle hmarks => ⟨b, hb, .refl b, ?_⟩, fun hdistinct => ?_⟩
  · exact Sensitivity.mem_memberIds_of_single (hsound.form hb).1 hsingle hmarks hids
  · refine exists_congr fun b' => and_congr_right fun hb' => and_congr_right fun _ => ?_
    rw [Sensitivity.mem_memberIds_of_distinct hdistinct hids]
    constructor
    · rintro ⟨m, hid, s, hs, hmarked, hm⟩
      have hleads := Sensitivity.leads_of_reaches (hsound.form hb').1 (hs.trans hm)
      rw [← hdistinct (.member m) (.member b'.member) (hs.trans hm) (.single hleads) hid]
      exact ⟨s, hs, hmarked, hm⟩
    · exact fun hexposed => ⟨b'.member, rfl, hexposed⟩

/-! ## Marks that cover something, and marks that do not -/

/-- An input of this kind with these members. -/
def sampleInput (kind : ShapeKind) (members : List Member) : Shape :=
  ⟨"ns#In", kind, [], members, none, none, [], []⟩

/-- A model of such an input, an operation on it apart, and of more shapes. -/
def sampleModel (kind : ShapeKind) (members : List Member) (more : List Shape) : Model :=
  ⟨.bare "smithy.api#String" .string :: .bare Model.unit .struct :: sampleInput kind members ::
    more⟩

/-- The plan of the operation that reads the input. -/
def samplePlan (model : Model) : Except AnalysisError (Option Plan) :=
  (ofShape model (.rest "restJson1" .epochSeconds) .empty
    ⟨"ns#Read", .operation, [(Trait.http, .map [("method", .text "GET"), ("uri", .text "/")])], [],
      some "ns#In", none, [], []⟩).1

/-- A sensitive member that is bound to a header. -/
def secretMember : Member :=
  ⟨"secret", "smithy.api#String", "ns#In",
    [(Trait.httpHeader, .text "X-Secret"), (Trait.sensitive, .map [])]⟩

/-- A member that is bound to a header and has a list of sensitive texts as its target. -/
def secretsMember : Member :=
  ⟨"secrets", "ns#Secrets", "ns#In", [(Trait.httpHeader, .text "X-Secrets")]⟩

def secretsShape : Shape :=
  ⟨"ns#Secrets", .list, [],
    [⟨"member", "smithy.api#String", "ns#Secrets", [(Trait.sensitive, .map [])]⟩], none, none, [],
    []⟩

/-- A sensitive header is covered. -/
theorem covers_secretMember :
    ∃ plan, samplePlan (sampleModel .struct [secretMember] []) = .ok (some plan) ∧
      plan.coverage.Covers .request (.named secretMember .header "X-Secret") := by
  obtain ⟨plan, hplan, hroot, hbindings⟩ : ∃ plan,
      samplePlan (sampleModel .struct [secretMember] []) = .ok (some plan) ∧
      plan.root .request = sampleInput .struct [secretMember] ∧
      plan.bindings .request = [.named secretMember .header "X-Secret"] := ⟨_, rfl, rfl, rfl⟩
  have hb : Binding.named secretMember .header "X-Secret" ∈ plan.bindings .request := by
    rw [hbindings]
    exact List.mem_singleton.mpr rfl
  have hdistinct : Node.Distinct (sampleModel .struct [secretMember] []) (plan.root .request) :=
    hroot ▸ Node.distinct_of_loneMember (t := .bare "smithy.api#String" .string) rfl rfl rfl
      (by decide)
  have hreaches : Node.Reaches (sampleModel .struct [secretMember] [])
      (.shape (plan.root .request)) (.member secretMember) := by
    rw [hroot]
    exact .single ⟨_, rfl, List.mem_singleton.mpr rfl⟩
  have hsingle := hdistinct.single hreaches
  exact ⟨plan, hplan, (covers_sensitive hplan .request hb rfl).1 hsingle (Or.inl rfl)⟩

/-- Whether the sample operation is planned with a header that carries a member and that is not
covered. -/
def HeaderUncovered (model : Model) (m : Member) : Prop :=
  ∃ plan, samplePlan model = .ok (some plan) ∧ ∃ b ∈ plan.bindings .request,
    b.location = .header ∧ b.member = m ∧ ¬ plan.coverage.Covers .request b

theorem headerUncovered_of {model : Model} {root : Shape} (bs : List Binding) (ids : List String)
    (hplan : ∃ plan, samplePlan model = .ok (some plan) ∧ plan.root .request = root ∧
      plan.bindings .request = bs)
    (hids : Sensitivity.memberIds model root = .ok ids) (hnone : ∀ b ∈ bs, b.member.id ∉ ids)
    {b : Binding} (hb : b ∈ bs) (hl : b.location = .header) : HeaderUncovered model b.member := by
  obtain ⟨plan, hplan, rfl, rfl⟩ := hplan
  obtain ⟨http, hrule⟩ := ofShape_eq_ok hplan
  obtain ⟨ids', hids', hcovers⟩ := (ofRule_sound hrule).covers_iff .request
  rw [hids] at hids'
  cases hids'
  refine ⟨plan, hplan, b, hb, hl, rfl, fun hc => ?_⟩
  obtain ⟨b', hb', -, hid⟩ := (hcovers b hb (by rw [hl]; rfl)).mp hc
  exact hnone b' hb' hid

/-- A header is not covered although the elements of its list are sensitive. Nor is the header of a
sensitive member if a shape has the id of that member and comes before it, or if the input is itself
an operation. -/
theorem sensitive_not_covered :
    (HeaderUncovered (sampleModel .struct [secretsMember] [secretsShape]) secretsMember ∧
      Format.elementOf (sampleModel .struct [secretsMember] [secretsShape]) .header secretsMember =
        .ok (secretsShape.element, .bare "smithy.api#String" .string, true) ∧
      secretsShape.element.traits.has Trait.sensitive = true) ∧
    secretMember.traits.has Trait.sensitive = true ∧
    HeaderUncovered (sampleModel .struct [secretMember, ⟨"other", secretMember.id, "ns#In", []⟩]
      [.bare secretMember.id .string]) secretMember ∧
    HeaderUncovered (sampleModel .operation [secretMember] []) secretMember := by
  refine ⟨⟨?_, rfl, rfl⟩, rfl, ?_, ?_⟩
  · exact headerUncovered_of [.named secretsMember .header "X-Secrets"] ["ns#Secrets$member"]
      ⟨_, rfl, rfl, rfl⟩ rfl (by decide) List.mem_cons_self rfl
  · exact headerUncovered_of [.named secretMember .header "X-Secret",
        .plain ⟨"other", secretMember.id, "ns#In", []⟩ .document] []
      ⟨_, rfl, rfl, rfl⟩ rfl (by decide) List.mem_cons_self rfl
  · exact headerUncovered_of [.named secretMember .header "X-Secret"] []
      ⟨_, rfl, rfl, rfl⟩ rfl (by decide) List.mem_cons_self rfl

end Plan

end Wireform
