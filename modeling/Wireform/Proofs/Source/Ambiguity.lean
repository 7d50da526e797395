import Wireform.Proofs.Generation
import Wireform.Proofs.Source.Directions

/-
  Wireform source text: whether functions of one name are one function. A later definition takes the
  place of an earlier one, so a call reaches the function that was written for it only if they have
  the same body.
-/

namespace Wireform

namespace Source

variable {w : Writer} {plans : List Plan} {o : ModuleOptions} {m : Module} {plan : Plan}

/-! ## Names of a module -/

/-- Functions of one name have one body. -/
def Module.Unambiguous (m : Module) : Prop :=
  ∀ d ∈ m.functions, ∀ d' ∈ m.functions, d.name = d'.name → d.body = d'.body

instance (m : Module) : Decidable m.Unambiguous :=
  inferInstanceAs (Decidable (∀ d ∈ m.functions, ∀ d' ∈ m.functions, d.name = d'.name →
    d.body = d'.body))

/-- The function that a call reaches, which is the last one of its name. -/
def Module.reached (m : Module) (name : String) : Option Definition :=
  m.functions.reverse.find? (·.name = name)

theorem exists_reached {d : Definition} (hd : d ∈ m.functions) :
    ∃ d' ∈ m.functions, m.reached d.name = some d' ∧ d'.name = d.name := by
  have hsome : (m.reached d.name).isSome = true :=
    List.find?_isSome.mpr ⟨d, List.mem_reverse.mpr hd, decide_eq_true rfl⟩
  obtain ⟨d', hd'⟩ := Option.isSome_iff_exists.mp hsome
  exact ⟨d', List.mem_reverse.mp (List.mem_of_find?_eq_some hd'), hd',
    by simpa using List.find?_some hd'⟩

/-- Whether functions of one name have one body shows at the last one of each name. -/
theorem unambiguous_iff_reached : m.Unambiguous ↔
    ∀ d ∈ m.functions, ∃ d', m.reached d.name = some d' ∧ d'.body = d.body := by
  constructor
  · intro h d hd
    obtain ⟨d', hmem, hd', hname⟩ := exists_reached hd
    exact ⟨d', hd', h d' hmem d hd hname⟩
  · intro h d hd d' hd' hname
    obtain ⟨e, he, hbody⟩ := h d hd
    obtain ⟨e', he', hbody'⟩ := h d' hd'
    rw [hname, he'] at he
    cases he
    exact hbody.symm.trans hbody'

/-! ## Functions of a module -/

/-- The sites of planned operations. -/
def sites (plans : List Plan) : List Site := plans.flatMap Site.ofPlan

theorem mem_sites {s : Site} (hplan : plan ∈ plans) (hs : s ∈ Site.ofPlan plan) :
    s ∈ sites plans := List.mem_flatMap.mpr ⟨plan, hplan, hs⟩

/-- The functions of a module come operation by operation, each with those of its sites. -/
theorem parts_of_ofPlans (h : Module.ofPlans w plans o = .ok m) : ∃ parts,
    plans.mapM (fun plan => (Site.ofPlan plan).mapM (Site.write w)) = .ok parts ∧
      m.functions = parts.flatten := by
  obtain ⟨-, -, parts, -, -, hparts, hfunctions, -⟩ := written_of_ofPlans h
  simp only [← Site.operationFunctions_eq]
  exact ⟨parts, hparts, hfunctions⟩

/-- The functions of a module are those of its sites. -/
theorem functions_of_ofPlans (h : Module.ofPlans w plans o = .ok m) :
    (sites plans).mapM (Site.write w) = .ok m.functions := by
  obtain ⟨parts, hparts, hfunctions⟩ := parts_of_ofPlans h
  unfold sites
  rw [Outcome.mapM_flatMap]
  exact Outcome.map_eq_ok.mpr ⟨parts, hparts, hfunctions.symm⟩

theorem mem_of_write {ds : List Definition} (h : (sites plans).mapM (Site.write w) = .ok ds)
    {s : Site} (hs : s ∈ sites plans) {d : Definition} (hd : s.write w = .ok d) : d ∈ ds := by
  obtain ⟨d', hd', hs'⟩ := Outcome.exists_of_mem_mapM h hs
  exact Except.ok.inj (hd.symm.trans hs') ▸ hd'

/-! ## Messages of an operation -/

theorem plan_of_mem {x : Exchange} (hx : x ∈ Exchange.all plan) : x.plan = plan := by
  rcases List.mem_cons.mp hx with rfl | hx
  · rfl
  · rcases List.mem_cons.mp hx with rfl | hx
    · rfl
    · obtain ⟨e, -, rfl⟩ := List.mem_map.mp hx
      rfl

/-- Planning has classified every message. -/
theorem classified_of_mem (hchecked : Plan.Checked w.model w.protocol plan) {x : Exchange}
    (hx : x ∈ Exchange.all plan) :
    ∃ uri, Binding.classify w.model x.direction uri x.container = .ok x.bindings := by
  have hclassified := hchecked.classified
  rcases List.mem_cons.mp hx with rfl | hx
  · exact ⟨_, hclassified _ List.mem_cons_self⟩
  · rcases List.mem_cons.mp hx with rfl | hx
    · exact ⟨_, hclassified _ (List.mem_cons_of_mem _ List.mem_cons_self)⟩
    · obtain ⟨e, he, rfl⟩ := List.mem_map.mp hx
      exact ⟨_, hclassified _ (List.mem_cons_of_mem _ (List.mem_cons_of_mem _
        (List.mem_map_of_mem he)))⟩

/-- A member that is bound to a part both directions have is bound alike in all messages. -/
theorem binding_eq (hchecked : Plan.Checked w.model w.protocol plan) {x y : Exchange}
    (hx : x ∈ Exchange.all plan) (hy : y ∈ Exchange.all plan) {b c : Binding}
    (hb : b ∈ x.bindings) (hc : c ∈ y.bindings) (hmember : b.member = c.member)
    (hl : b.location.isCommon = true) : b = c := by
  obtain ⟨_, hxs⟩ := classified_of_mem hchecked hx
  obtain ⟨_, hys⟩ := classified_of_mem hchecked hy
  have hown := Binding.ofMember_of_mem hys hc
  rw [← hmember] at hown
  exact Binding.eq_of_isCommon (Binding.ofMember_of_mem hxs hb) hown hl

/-- An error that is listed twice has the same bindings. -/
theorem error_eq (hchecked : Plan.Checked w.model w.protocol plan) {e e' : Shape × List Binding}
    (he : e ∈ plan.errors) (he' : e' ∈ plan.errors) (h : e.1 = e'.1) : e = e' := by
  have hmem : ∀ e ∈ plan.errors, (Plan.Message.ofError e.1, e.2) ∈ plan.exchanges :=
    fun e he => List.mem_cons_of_mem _ (List.mem_cons_of_mem _ (List.mem_map_of_mem he))
  have hclassified : Plan.Message.classify w.model (.ofError e.1) = .ok e.2 :=
    hchecked.classified _ (hmem e he)
  have hclassified' : Plan.Message.classify w.model (.ofError e'.1) = .ok e'.2 :=
    hchecked.classified _ (hmem e' he')
  rw [h, hclassified'] at hclassified
  exact Prod.ext h (Except.ok.inj hclassified).symm

/-- Only the reader of a request is strict. -/
theorem eq_ofRequest {x : Exchange} (hx : x ∈ Exchange.all plan) (hstrict : x.strict = true) :
    x = .ofRequest plan := by
  rcases List.mem_cons.mp hx with rfl | hx
  · rfl
  · rcases List.mem_cons.mp hx with rfl | hx
    · cases hstrict
    · obtain ⟨e, -, rfl⟩ := List.mem_map.mp hx
      cases hstrict

/-- A shape is one of the answers of an operation. -/
def Answers (plan : Plan) (s : Shape) : Prop := plan.output = s ∨ ∃ e ∈ plan.errors, e.1 = s

theorem answers_iff {s : Shape} : Answers plan s ↔
    ∃ x ∈ Exchange.all plan, x.strict = false ∧ x.container = s := by
  constructor
  · rintro (rfl | ⟨e, he, rfl⟩)
    · exact ⟨.ofResponse plan, List.mem_cons_of_mem _ List.mem_cons_self, rfl, rfl⟩
    · exact ⟨.ofError plan e, List.mem_cons_of_mem _ (List.mem_cons_of_mem _
        (List.mem_map_of_mem he)), rfl, rfl⟩
  · rintro ⟨x, hx, hstrict, rfl⟩
    rcases List.mem_cons.mp hx with rfl | hx
    · cases hstrict
    · rcases List.mem_cons.mp hx with rfl | hx
      · exact Or.inl rfl
      · obtain ⟨e, he, rfl⟩ := List.mem_map.mp hx
        exact Or.inr ⟨e, he, rfl⟩

/-! ## One place -/

/-- The input of an operation is one of its answers and has an enum in a header or payload. -/
def Clashes (w : Writer) (plan : Plan) : Prop :=
  Answers plan plan.input ∧ ∃ b ∈ plan.request, ∃ r ∈ MemberRole.at b.location, ReadsEnum w b r

theorem isCommon_of_role {r : MemberRole} {l : Location} (h : r ∈ MemberRole.at l) :
    l.isCommon = true := by
  cases l with
  | header | prefixHeaders | payload => rfl
  | query | queryParams | label | document | responseCode => cases h

/-- A strict reader of an enum and one that is not are those of a clash. -/
theorem clashes_of_strict {x y : Exchange} {b : Binding} {r : MemberRole}
    (hx : x ∈ Exchange.all plan) (hy : y ∈ Exchange.all plan) (hstrict : x.strict = true)
    (hlenient : y.strict = false) (hcontainer : x.container = y.container) (hb : b ∈ x.bindings)
    (hr : r ∈ MemberRole.at b.location) (hreads : ReadsEnum w b r) : Clashes w plan := by
  obtain rfl := eq_ofRequest hx hstrict
  exact ⟨answers_iff.mpr ⟨y, hy, hlenient, hcontainer.symm⟩, b, hb, r, hr, hreads⟩

/-- Functions of one role at one place have one body, unless there is a clash. -/
theorem body_of_alike (hchecked : Plan.Checked w.model w.protocol plan)
    (hcs : ∀ c ∈ w.customizations, c.IgnoresDirection) (hclash : ¬ Clashes w plan) {s t : Site}
    (hs : s ∈ Site.ofPlan plan) (ht : t ∈ Site.ofPlan plan) (halike : s.Alike t)
    {d d' : Definition} (h : s.write w = .ok d) (h' : t.write w = .ok d') : d.body = d'.body := by
  rw [Site.mem_ofPlan] at hs ht
  cases halike with
  | operation r p =>
    cases h.symm.trans h'
    rfl
  | headers hplan hcontainer =>
    obtain ⟨_, hx⟩ := classified_of_mem hchecked hs
    obtain ⟨_, hy⟩ := classified_of_mem hchecked ht
    exact addHeaders_body hcs hplan hcontainer hx hy h h'
  | error r hplan hcontainer =>
    obtain ⟨e, he, rfl⟩ := hs
    obtain ⟨e', he', rfl⟩ := ht
    cases error_eq hchecked he he' hcontainer
    cases h.symm.trans h'
    rfl
  | @member x y b c r hplan hcontainer hmember =>
    obtain ⟨hx, hb, hr⟩ := hs
    obtain ⟨hy, hc, hr'⟩ := ht
    obtain rfl := binding_eq hchecked hx hy hb hc hmember (isCommon_of_role hr)
    -- now only the strictness of the two messages can make a difference
    rw [member_body_iff hcs hplan hcontainer h h', or_iff_not_imp_left]
    intro hne hreads
    cases hstrict : x.strict with
    | true =>
      have hlenient : y.strict = false := by simpa [hstrict] using hne
      exact hclash (clashes_of_strict hx hy hstrict hlenient hcontainer hb hr hreads)
    | false =>
      have hother : y.strict = true := by simpa [hstrict] using hne
      exact hclash (clashes_of_strict hy hx hother hstrict hcontainer.symm hc hr hreads)

/-- Where the input is an answer, the functions of its members are written for both. -/
theorem exists_answer (hchecked : Plan.Checked w.model w.protocol plan)
    (hanswers : Answers plan plan.input) {b : Binding} (hb : b ∈ plan.request) {r : MemberRole}
    (hr : r ∈ MemberRole.at b.location) : ∃ t ∈ Site.ofAnswers plan,
      t.role = (Site.member r (.ofRequest plan) b).role ∧
      t.place = (Site.member r (.ofRequest plan) b).place := by
  obtain ⟨y, hy, hlenient, hcontainer⟩ := answers_iff.mp hanswers
  obtain ⟨_, hxs⟩ := classified_of_mem hchecked (x := .ofRequest plan) List.mem_cons_self
  obtain ⟨_, hys⟩ := classified_of_mem hchecked hy
  rw [hcontainer] at hys
  have hc : b ∈ y.bindings := Binding.mem_of_isCommon hxs hys hb (isCommon_of_role hr)
  have hsite : Site.member r y b ∈ Site.ofPlan plan := Site.mem_ofPlan.mpr ⟨hy, hc, hr⟩
  refine ⟨.member r y b, ?_, rfl, ?_⟩
  · rcases List.mem_append.mp hsite with hrequest | hanswer
    · rw [Site.strict_of_mem_ofRequest hrequest] at hlenient
      cases hlenient
    · exact hanswer
  · simp only [Site.place, plan_of_mem hy, hcontainer, Exchange.ofRequest]

/-- The reader of an enum in an answer has another body than the one in the request. -/
theorem body_ne_of_answer (hchecked : Plan.Checked w.model w.protocol plan)
    (hcs : ∀ c ∈ w.customizations, c.IgnoresDirection) {b : Binding} (hb : b ∈ plan.request)
    {r : MemberRole} (hr : r ∈ MemberRole.at b.location) (hreads : ReadsEnum w b r)
    {d : Definition} (hd : (Site.member r (.ofRequest plan) b).write w = .ok d) {t : Site}
    (ht : t ∈ Site.ofAnswers plan) (hrole : t.role = (Site.member r (.ofRequest plan) b).role)
    (hplace : t.place = (Site.member r (.ofRequest plan) b).place) {e : Definition}
    (he : t.write w = .ok e) : d.body ≠ e.body := by
  have hsite : t.Belongs plan := Site.mem_ofPlan.mp (List.mem_append_right _ ht)
  cases Site.alike_of_role hrole hplace with
  | @member y _ c _ r hplan hcontainer hmember =>
    obtain ⟨hy, hc, -⟩ := hsite
    have hx : Exchange.ofRequest plan ∈ Exchange.all plan := List.mem_cons_self
    obtain rfl := binding_eq hchecked hx hy hb hc hmember.symm (isCommon_of_role hr)
    intro hbody
    rcases (member_body_iff hcs hplan.symm hcontainer.symm hd he).mp hbody with hstrict | hnone
    · rw [Site.lenient_of_mem_ofAnswers ht] at hstrict
      cases hstrict
    · exact hnone hreads

/-! ## All places -/

/-- Functions of one role at different places that are spelled alike have one body. -/
def AgreesWhereAlike (w : Writer) (plans : List Plan) : Prop :=
  ∀ s ∈ sites plans, ∀ t ∈ sites plans, s.role = t.role → s.place ≠ t.place →
    s.place.spelled = t.place.spelled → ∀ d d', s.write w = .ok d → t.write w = .ok d' →
      d.body = d'.body

theorem place_plan {s : Site} (hs : s ∈ Site.ofPlan plan) : s.place.plan = plan := by
  rw [Site.mem_ofPlan] at hs
  cases s with
  | operation r p => exact hs
  | headers x => exact plan_of_mem hs
  | error r x =>
    obtain ⟨e, -, rfl⟩ := hs
    rfl
  | member r x b => exact plan_of_mem hs.1

/-- Functions of one name have one body, if the operation of one has no clash. -/
theorem body_of_name (hchecked : Plan.Checked w.model w.protocol plan)
    (hcs : ∀ c ∈ w.customizations, c.IgnoresDirection) (hagrees : AgreesWhereAlike w plans)
    (hplan : plan ∈ plans) (hclash : ¬ Clashes w plan) {s t : Site} (hs : s ∈ Site.ofPlan plan)
    (ht : t ∈ sites plans) {d d' : Definition} (hd : s.write w = .ok d)
    (hd' : t.write w = .ok d') (hname : d.name = d'.name) : d.body = d'.body := by
  rw [Site.name_of_write s d hd, Site.name_of_write t d' hd'] at hname
  obtain ⟨hrole, hspelled⟩ := Site.role_of_name s.role_mem t.role_mem hname
  by_cases hplace : s.place = t.place
  · -- one place is one of a single operation, which may stand in the list twice
    obtain ⟨plan', -, ht⟩ := List.mem_flatMap.mp ht
    obtain rfl : plan' = plan := by rw [← place_plan hs, ← place_plan ht, hplace]
    exact body_of_alike hchecked hcs hclash hs ht (Site.alike_of_role hrole hplace) hd hd'
  · exact hagrees s (mem_sites hplan hs) t ht hrole hplace hspelled d d' hd hd'

/-- A module is unambiguous unless places that are spelled alike disagree, or the input of an
operation is one of its answers and has an enum in a header or payload. -/
theorem unambiguous_of_plans (hchecked : ∀ plan ∈ plans, Plan.Checked w.model w.protocol plan)
    (hcs : ∀ c ∈ w.customizations, c.IgnoresDirection) (h : Module.ofPlans w plans o = .ok m) :
    m.Unambiguous ↔ AgreesWhereAlike w plans ∧ ∀ plan ∈ plans, ¬ Clashes w plan := by
  have hfunctions := functions_of_ofPlans h
  have hwritten : ∀ s ∈ sites plans, ∃ d ∈ m.functions, s.write w = .ok d := fun s hs =>
    Outcome.exists_of_mem_mapM hfunctions hs
  constructor
  · intro hm
    have hbody : ∀ s ∈ sites plans, ∀ t ∈ sites plans, s.role = t.role →
        s.place.spelled = t.place.spelled → ∀ d d', s.write w = .ok d → t.write w = .ok d' →
        d.body = d'.body := by
      intro s hs t ht hrole hspelled d d' hd hd'
      refine hm d (mem_of_write hfunctions hs hd) d' (mem_of_write hfunctions ht hd') ?_
      rw [Site.name_of_write s d hd, Site.name_of_write t d' hd', hrole, hspelled]
    refine ⟨fun s hs t ht hrole _ => hbody s hs t ht hrole, fun plan hplan hclash => ?_⟩
    obtain ⟨hanswers, b, hb, r, hr, hreads⟩ := hclash
    obtain ⟨t, ht, hrole, hplace⟩ := exists_answer (hchecked plan hplan) hanswers hb hr
    have hs : Site.member r (.ofRequest plan) b ∈ sites plans :=
      mem_sites hplan (Site.mem_ofPlan.mpr ⟨List.mem_cons_self, hb, hr⟩)
    have ht' : t ∈ sites plans := mem_sites hplan (List.mem_append_right _ ht)
    obtain ⟨d, -, hd⟩ := hwritten _ hs
    obtain ⟨d', -, hd'⟩ := hwritten _ ht'
    exact body_ne_of_answer (hchecked plan hplan) hcs hb hr hreads hd ht hrole hplace hd'
      (hbody _ hs _ ht' hrole.symm (congrArg Place.spelled hplace.symm) d d' hd hd')
  · rintro ⟨hagrees, hclash⟩ d hd d' hd' hname
    obtain ⟨s, hs, hsd⟩ := Outcome.exists_of_mem_forall₂ (Outcome.mapM_eq_ok.mp hfunctions) hd
    obtain ⟨t, ht, htd⟩ := Outcome.exists_of_mem_forall₂ (Outcome.mapM_eq_ok.mp hfunctions) hd'
    obtain ⟨plan, hplan, hs⟩ := List.mem_flatMap.mp hs
    exact body_of_name (hchecked plan hplan) hcs hagrees hplan (hclash plan hplan) hs ht hsd htd
      hname

/-! ## Readers of requests -/

/-- A function is the one that a request reads an enum in a header or payload with. -/
def ReadsRequest (w : Writer) (plan : Plan) (d : Definition) : Prop :=
  ∃ b ∈ plan.request, ∃ r ∈ MemberRole.at b.location, ReadsEnum w b r ∧
    (Site.member r (.ofRequest plan) b).write w = .ok d

/-- Where places that are spelled alike agree, a name with two bodies has one place. -/
theorem place_of_name (hagrees : AgreesWhereAlike w plans) {s t u : Site} (hs : s ∈ sites plans)
    (ht : t ∈ sites plans) (hu : u ∈ sites plans) (hrole : t.role = s.role)
    (hplace : t.place = s.place) {d d' e : Definition} (hd : s.write w = .ok d)
    (hd' : t.write w = .ok d') (he : u.write w = .ok e) (hne : d.body ≠ d'.body)
    (hname : e.name = d.name) : u.role = s.role ∧ u.place = s.place := by
  rw [Site.name_of_write u e he, Site.name_of_write s d hd] at hname
  obtain ⟨hsame, hspelled⟩ := Site.role_of_name u.role_mem s.role_mem hname
  refine ⟨hsame, ?_⟩
  by_contra hother
  have hbody : e.body = d.body := hagrees u hu s hs hsame hother hspelled e d he hd
  have hbody' : e.body = d'.body := hagrees u hu t ht (hsame.trans hrole.symm) (hplace ▸ hother)
    (hspelled.trans (congrArg Place.spelled hplace.symm)) e d' he hd'
  exact hne (hbody.symm.trans hbody')

/-- What holds of the last element in each part that has one holds of the last one in all. -/
theorem last_of_parts {α : Type} {p : α → Bool} {good : α → Prop} {parts : List (List α)}
    (h : ∀ part ∈ parts, ∀ a, part.reverse.find? p = some a → good a) {a : α}
    (ha : parts.flatten.reverse.find? p = some a) : good a := by
  induction parts with
  | nil => cases ha
  | cons part parts ih =>
    rw [List.flatten_cons, List.reverse_append, List.find?_append, Option.or_eq_some_iff] at ha
    rcases ha with ha | ⟨-, ha⟩
    · exact ih (fun part hpart => h part (List.mem_cons_of_mem _ hpart)) ha
    · exact h part List.mem_cons_self a ha

/-- A name that one of the answers has is not last in the request. -/
theorem last_of_answers {u : Site} (hu : u ∈ Site.ofAnswers plan) {e : Definition}
    (he : u.write w = .ok e) {ds : List Definition}
    (hds : (Site.ofPlan plan).mapM (Site.write w) = .ok ds) {d : Definition}
    (h : ds.reverse.find? (·.name = e.name) = some d) :
    ∃ t ∈ Site.ofAnswers plan, t.write w = .ok d := by
  rw [Site.ofPlan, List.mapM_append] at hds
  obtain ⟨front, -, hds⟩ := Outcome.bind_eq_ok.mp hds
  obtain ⟨back, hback, hds⟩ := Outcome.bind_eq_ok.mp hds
  cases hds
  rw [List.reverse_append, List.find?_append, Option.or_eq_some_iff] at h
  rcases h with h | ⟨hnone, -⟩
  · exact Outcome.exists_of_mem_forall₂ (Outcome.mapM_eq_ok.mp hback)
      (List.mem_reverse.mp (List.mem_of_find?_eq_some h))
  · obtain ⟨e', hmem, he'⟩ := Outcome.exists_of_mem_mapM hback hu
    cases he.symm.trans he'
    exact absurd (decide_eq_true rfl) (List.find?_eq_none.mp hnone e (List.mem_reverse.mpr hmem))

/-- Where the input is an answer, no operation has the reader of a request last. -/
theorem body_ne_of_last (hchecked : Plan.Checked w.model w.protocol plan)
    (hcs : ∀ c ∈ w.customizations, c.IgnoresDirection) (hagrees : AgreesWhereAlike w plans)
    (hwritten : ∀ s ∈ sites plans, ∃ d, s.write w = .ok d) (hplan : plan ∈ plans)
    (hanswers : Answers plan plan.input) {d : Definition} (hd : ReadsRequest w plan d)
    {plan' : Plan} (hplan' : plan' ∈ plans) {ds : List Definition}
    (hds : (Site.ofPlan plan').mapM (Site.write w) = .ok ds) {d' : Definition}
    (h : ds.reverse.find? (·.name = d.name) = some d') : d.body ≠ d'.body := by
  obtain ⟨b, hb, r, hr, hreads, hd⟩ := hd
  have hs : Site.member r (.ofRequest plan) b ∈ sites plans :=
    mem_sites hplan (Site.mem_ofPlan.mpr ⟨List.mem_cons_self, hb, hr⟩)
  obtain ⟨t, ht, hrole, hplace⟩ := exists_answer hchecked hanswers hb hr
  have hmem : t ∈ sites plans := mem_sites hplan (List.mem_append_right _ ht)
  obtain ⟨e, he⟩ := hwritten t hmem
  have hname : e.name = d.name := by
    rw [Site.name_of_write t e he, Site.name_of_write _ d hd, hrole, hplace]
  have hdiffers {u : Site} (hu : u ∈ Site.ofAnswers plan) :=
    body_ne_of_answer hchecked hcs hb hr hreads hd hu
  -- the two bodies tie the name to one place, and so to one operation
  have hone {u : Site} (hu : u ∈ sites plans) (hud : u.write w = .ok d') :=
    place_of_name hagrees hs hmem hu hrole hplace hd he hud (hdiffers ht hrole hplace he)
      (by simpa using List.find?_some h)
  obtain ⟨u, hu, hud⟩ := Outcome.exists_of_mem_forall₂ (Outcome.mapM_eq_ok.mp hds)
    (List.mem_reverse.mp (List.mem_of_find?_eq_some h))
  obtain ⟨-, huplace⟩ := hone (mem_sites hplan' hu) hud
  obtain rfl : plan' = plan := by rw [← place_plan hu, huplace]; rfl
  obtain ⟨v, hv, hvd⟩ := last_of_answers ht he hds (hname ▸ h)
  obtain ⟨hvrole, hvplace⟩ := hone (mem_sites hplan' (List.mem_append_right _ hv)) hvd
  exact hdiffers hv hvrole hvplace hvd

/-- A call reaches the strict reader of a request exactly if the input is not one of the answers. -/
theorem reached_of_readsRequest (hchecked : ∀ plan ∈ plans, Plan.Checked w.model w.protocol plan)
    (hcs : ∀ c ∈ w.customizations, c.IgnoresDirection) (h : Module.ofPlans w plans o = .ok m)
    (hagrees : AgreesWhereAlike w plans) (hplan : plan ∈ plans) {d : Definition}
    (hd : ReadsRequest w plan d) :
    ∃ d', m.reached d.name = some d' ∧ (d'.body = d.body ↔ ¬ Answers plan plan.input) := by
  have hfunctions := functions_of_ofPlans h
  have hreads := hd
  obtain ⟨b, hb, r, hr, -, hd⟩ := hd
  have hown : Site.member r (.ofRequest plan) b ∈ Site.ofPlan plan :=
    Site.mem_ofPlan.mpr ⟨List.mem_cons_self, hb, hr⟩
  have hs : Site.member r (.ofRequest plan) b ∈ sites plans := mem_sites hplan hown
  obtain ⟨d', hmem, hreached, hname⟩ := exists_reached (mem_of_write hfunctions hs hd)
  refine ⟨d', hreached, fun hbody hanswers => ?_, fun hnone => ?_⟩
  · obtain ⟨parts, hparts, hflat⟩ := parts_of_ofPlans h
    have hwritten : ∀ s ∈ sites plans, ∃ d, s.write w = .ok d := fun s hs =>
      (Outcome.exists_of_mem_mapM hfunctions hs).imp fun _ h => h.2
    have hlast : ∀ part ∈ parts, ∀ a, part.reverse.find? (·.name = d.name) = some a →
        d.body ≠ a.body := by
      intro part hpart a ha
      obtain ⟨plan', hplan', hds⟩ :=
        Outcome.exists_of_mem_forall₂ (Outcome.mapM_eq_ok.mp hparts) hpart
      exact body_ne_of_last (hchecked plan hplan) hcs hagrees hwritten hplan hanswers hreads
        hplan' hds ha
    unfold Module.reached at hreached
    rw [hflat] at hreached
    exact last_of_parts hlast hreached hbody.symm
  · obtain ⟨t, ht, htd⟩ := Outcome.exists_of_mem_forall₂ (Outcome.mapM_eq_ok.mp hfunctions) hmem
    exact (body_of_name (hchecked plan hplan) hcs hagrees hplan (fun hclash => hnone hclash.1) hown
      ht hd htd hname.symm).symm

end Source

/-! ## Generated modules -/

/-- The customizations of the library add the same lines in both directions. -/
theorem Customization.ignoresDirection : ∀ c ∈ [base, sortKeys, rejectEmptyKeys],
    c.IgnoresDirection := by
  intro c hc s x d
  simp only [List.mem_cons, List.not_mem_nil, or_false] at hc
  rcases hc with rfl | rfl | rfl <;> rfl

/-- The module that is generated for planned operations. -/
def ServicePlan.module (x : ServicePlan) (settings : Settings) (cs : List Customization) :
    Except GenerateError Source.Module :=
  Source.Module.ofPlans ⟨x.model, x.protocol, cs⟩ x.plans
    ⟨x.service.name, settings.library, settings.doc⟩

theorem generate_eq_ok {model : Model} {settings : Settings} {cs : List Customization}
    {out : String} : generate model settings cs = .ok out ↔
      ∃ x m, ServicePlan.ofModel model settings.service settings.protocol = .ok x ∧
        x.module settings cs = .ok m ∧ m.text = out := by
  unfold generate render ServicePlan.module
  simp only [Outcome.bind_eq_ok, Outcome.map_eq_ok, exists_and_left]

/-- A service is planned in the model that its protocol leaves, where it is declared. -/
theorem planned_of_servicePlan {text : String} {model : Model} (hload : Model.load text = .ok model)
    {service protocol : Option String} {x : ServicePlan}
    (h : ServicePlan.ofModel model service protocol = .ok x) :
    x.model.IsLoaded x.protocol ∧ (∀ s, some x.service = some s → s ∈ x.model.shapes) ∧
      Plan.ofModel x.model x.protocol (some x.service) = .ok x.plans := by
  obtain ⟨s, -, h⟩ := Outcome.bind_eq_ok.mp h
  obtain ⟨p, -, h⟩ := Outcome.bind_eq_ok.mp h
  obtain ⟨t, ht, h⟩ := Outcome.bind_eq_ok.mp h
  obtain ⟨plans, hplans, h⟩ := Outcome.bind_eq_ok.mp h
  cases h
  refine ⟨⟨text, model, hload, Or.inr rfl⟩, ?_, Outcome.mapError_eq_ok.mp hplans⟩
  rintro _ ⟨⟩
  exact Model.mem_shapes_of_get (Outcome.mapError_eq_ok.mp (Source.lift_eq_ok.mp ht))

theorem checked_of_servicePlan {text : String} {model : Model} (hload : Model.load text = .ok model)
    {service protocol : Option String} {x : ServicePlan}
    (h : ServicePlan.ofModel model service protocol = .ok x) :
    ∀ plan ∈ x.plans, Plan.Checked x.model x.protocol plan := by
  obtain ⟨hmodel, hservice, hplans⟩ := planned_of_servicePlan hload h
  exact checked_of_planned hmodel hservice hplans

/-- The input of each plan is that of its operation. -/
theorem input_of_servicePlan {text : String} {model : Model} (hload : Model.load text = .ok model)
    {service protocol : Option String} {x : ServicePlan}
    (h : ServicePlan.ofModel model service protocol = .ok x) {plan : Plan} (hplan : plan ∈ x.plans) :
    x.model.lookup (Model.orUnit plan.operation.input) = .ok plan.input := by
  obtain ⟨hmodel, hservice, hplans⟩ := planned_of_servicePlan hload h
  exact Plan.input_of_mem_ofModel hmodel.sound hservice hplans hplan

/-- A generated module has one body for each name exactly if places that are spelled alike agree,
and no input with an enum in a header or payload is an answer of its operation. Exactly then every
call reaches the body that was written for it. Where such an input is an answer, a request is read
with the reader of the answer. -/
theorem unambiguous_iff {text : String} {model : Model} (hload : Model.load text = .ok model)
    {settings : Settings} {cs : List Customization} (hcs : ∀ c ∈ cs, c.IgnoresDirection)
    {out : String} (hgenerate : generate model settings cs = .ok out) :
    ∃ x m, ServicePlan.ofModel model settings.service settings.protocol = .ok x ∧
      x.module settings cs = .ok m ∧ m.text = out ∧
      (m.Unambiguous ↔ Source.AgreesWhereAlike ⟨x.model, x.protocol, cs⟩ x.plans ∧
        ∀ plan ∈ x.plans, ¬ Source.Clashes ⟨x.model, x.protocol, cs⟩ plan) ∧
      (m.Unambiguous ↔
        ∀ d ∈ m.functions, ∃ d', m.reached d.name = some d' ∧ d'.body = d.body) ∧
      (Source.AgreesWhereAlike ⟨x.model, x.protocol, cs⟩ x.plans → ∀ plan ∈ x.plans, ∀ d,
        Source.ReadsRequest ⟨x.model, x.protocol, cs⟩ plan d → ∃ d', m.reached d.name = some d' ∧
          (d'.body = d.body ↔ ¬ Source.Answers plan plan.input)) := by
  obtain ⟨x, m, hx, hm, hout⟩ := generate_eq_ok.mp hgenerate
  have hchecked := checked_of_servicePlan hload hx
  exact ⟨x, m, hx, hm, hout, Source.unambiguous_of_plans hchecked hcs hm,
    Source.unambiguous_iff_reached, fun hagrees _ hplan _ hd =>
      Source.reached_of_readsRequest hchecked hcs hm hagrees hplan hd⟩

/-- An operation that takes an enum in a header, and answers with the same header. -/
def levelsDocument (output : String) : Json :=
  let api : Json := .map [("type", .text "service"), ("operations", .list [reference "ns#Get"])]
  let get : Json := .map [("type", .text "operation"), ("input", reference "ns#In"),
    ("output", reference output),
    ("traits", .map [(Trait.http, .map [("method", .text "GET"), ("uri", .text "/")])])]
  let record : Json := .map [("type", .text "structure"), ("members", .map [("value",
    .map [("target", .text "ns#Level"), ("traits", .map [(Trait.httpHeader, .text "X-Level")])])])]
  let level : Json := .map [("type", .text "enum"),
    ("members", .map [("HIGH", reference Model.unit)])]
  .map [("shapes", .map [("ns#Api", api), ("ns#Get", get), ("ns#In", record), ("ns#Out", record),
    ("ns#Level", level)])]

/-- Where the answer is another structure, its reader has a name of its own. -/
theorem levels_unambiguous : ∃ (model : Model) (x : ServicePlan) (m : Source.Module) (out : String),
    Model.load (levelsDocument "ns#Out").compact = .ok model ∧
    generate model restSettings Customization.standard = .ok out ∧
    ServicePlan.ofModel model restSettings.service restSettings.protocol = .ok x ∧
    x.module restSettings Customization.standard = .ok m ∧ m.text = out ∧ m.Unambiguous ∧
    ∀ plan ∈ x.plans, ¬ Source.Clashes ⟨x.model, x.protocol, Customization.standard⟩ plan := by
  have hload := Model.load_compact (j := levelsDocument "ns#Out") (by decide +kernel)
  have hrun : Outcome.passes (fun model => Outcome.passes (fun x => Outcome.passes
      (fun m => decide m.Unambiguous) (ServicePlan.module x restSettings Customization.standard))
      (ServicePlan.ofModel model restSettings.service restSettings.protocol))
      (Loader.modelOf (levelsDocument "ns#Out")) = true := by
    decide +kernel
  obtain ⟨model, hmodel, h⟩ := Outcome.exists_of_passes hrun
  obtain ⟨x, hx, h⟩ := Outcome.exists_of_passes h
  obtain ⟨m, hm, h⟩ := Outcome.exists_of_passes h
  have hload := hload.trans hmodel
  have hgenerate : generate model restSettings Customization.standard = .ok m.text :=
    generate_eq_ok.mpr ⟨x, m, hx, hm, rfl⟩
  have hcs : ∀ c ∈ Customization.standard, c.IgnoresDirection := by
    intro c hc
    obtain rfl : c = .sortKeys := List.mem_singleton.mp hc
    exact Customization.ignoresDirection _ (by simp)
  obtain ⟨x', m', hx', hm', -, hiff, -, -⟩ := unambiguous_iff hload hcs hgenerate
  cases hx.symm.trans hx'
  cases hm.symm.trans hm'
  have hverdict := of_decide_eq_true h
  exact ⟨model, x, m, m.text, hload, hgenerate, hx, hm, rfl, hverdict, (hiff.mp hverdict).2⟩

/-- Where the input is also the answer, its reader is defined twice with different bodies. -/
theorem not_every_module_unambiguous : ¬ ∀ (text : String) (model : Model),
    Model.load text = .ok model → ∀ settings x m,
      ServicePlan.ofModel model settings.service settings.protocol = .ok x →
      x.module settings Customization.standard = .ok m → m.Unambiguous := by
  intro h
  have hload := Model.load_compact (j := levelsDocument "ns#In") (by decide +kernel)
  have hrun : Outcome.passes (fun model => Outcome.passes (fun x => Outcome.passes
      (fun m => !decide m.Unambiguous) (ServicePlan.module x restSettings Customization.standard))
      (ServicePlan.ofModel model restSettings.service restSettings.protocol))
      (Loader.modelOf (levelsDocument "ns#In")) = true := by
    decide +kernel
  obtain ⟨model, hmodel, hrun⟩ := Outcome.exists_of_passes hrun
  obtain ⟨x, hx, hrun⟩ := Outcome.exists_of_passes hrun
  obtain ⟨m, hm, hrun⟩ := Outcome.exists_of_passes hrun
  have hambiguous : ¬ m.Unambiguous := by simpa using hrun
  exact hambiguous (h _ model (hload.trans hmodel) restSettings x m hx hm)

end Wireform
