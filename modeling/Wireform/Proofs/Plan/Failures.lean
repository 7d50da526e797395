import Wireform.Proofs.Plan.Checks
import Wireform.Proofs.Plan.Lookups
import Wireform.Proofs.Sensitivity.Exposure

/-
  Wireform plans: how planning fails in a sound model other than with errors of bindings. A lookup
  finds nothing only at a member of an enum, whose target nobody has checked, or at a timestamp
  format that has no such name.
-/

namespace Wireform

variable {model : Model}

namespace Plan

/-! ## Checks -/

variable {p : Protocol} {op : Shape} {e : AnalysisError}

/-- What is wrong when a check finds no shape under an id. -/
def Check.Misses (model : Model) (op : Shape) : Check → Prop
  | bound x => Outcome.FirstFault (Binding.ofMember model x.direction x.uri)
      (fun m => Binding.IsBound m ∧ model.Lacks m) x.shape.members
  | formatted _ => False
  | checksum => ∃ m, ChecksumPolicy.Strays model op m
  | walked root => ∃ m, Sensitivity.Meets model root m ∧ model.Lacks m

/-- What is wrong when a check finds no timestamp format under a name. -/
def Check.Misnames (model : Model) (p : Protocol) : Check → Prop
  | formatted x => ∃ bs, x.classify model = .ok bs ∧
      Outcome.FirstFault (Format.ofBinding model p)
        (fun b => Format.Misnames model b.location b.member) (bs.filter (·.location.isText))
  | _ => False

/-- Bindings as text that a message has been given. -/
theorem exists_target_of_text {x : Message} {bs : List Binding} (hbs : x.classify model = .ok bs)
    {b : Binding} (hb : b ∈ bs.filter (·.location.isText)) :
    b.location.isText = true ∧ ∃ t ∈ model.shapes, model.targetOf b.member = .ok t := by
  obtain ⟨hb, htext⟩ := List.mem_filter.mp hb
  refine ⟨htext, ?_⟩
  obtain ⟨t, -, -, ht, -⟩ := Binding.classify_target hbs hb fun h => by rw [h] at htext; cases htext
  exact ⟨t, Model.mem_shapes_of_get (Model.targetOf_eq_ok.mp ht), ht⟩

theorem checkFormats_eq_error {bs : List Binding} : checkFormats model p bs = .error e ↔
    Outcome.FirstFault (Format.ofBinding model p) (fun b => Format.ofBinding model p b = .error e)
      (bs.filter (·.location.isText)) := by
  unfold checkFormats
  rw [Outcome.forM_eq_error]
  exact Outcome.firstFault_congr (fun _ => Outcome.exists_map_eq_ok) fun _ => Outcome.map_eq_error

theorem Check.formatted_failure (hsound : model.Sound) {x : Message}
    (h : (formatted x).run model p op = .error e) : e.IsBinding ∨ e.IsUnknownFormat := by
  unfold run at h
  dsimp only at h
  split at h
  · next bs hbs =>
    obtain ⟨before, b, after, hfilter, -, hb⟩ := checkFormats_eq_error.mp h
    obtain ⟨-, t, ht, htarget⟩ := exists_target_of_text hbs
      (hfilter ▸ List.mem_append_right _ List.mem_cons_self)
    exact (Format.rule_eq_error hsound htarget ht hb).imp_right fun h => h.2
  · cases h

/-- The failures of the other checks. -/
theorem Check.other_failure (hsound : model.Sound) (hop : op ∈ model.shapes)
    (hdefault : ∃ a, Algorithm.ofName p.checksum = .ok a) {c : Check} (hc : ∀ x, c ≠ formatted x)
    (h : c.run model p op = .error e) : e.IsBinding ∨ e.IsMissing := by
  cases c with
  | bound x =>
    refine (Binding.classify_failure (Outcome.map_eq_error.mp h)).imp (·.isBinding) ?_
    exact fun ⟨m, _, _, he⟩ => ⟨m.target, he⟩
  | formatted x => exact absurd rfl (hc x)
  | checksum =>
    obtain ⟨input, -, hinput⟩ := hsound.exists_input hop
    have hfail := ChecksumPolicy.ofShape_eq_error hinput hdefault (Outcome.map_eq_error.mp h)
    exact hfail.imp_right fun ⟨m, _, he⟩ => ⟨m.target, he⟩
  | walked root =>
    obtain ⟨m, -, -, he⟩ := Sensitivity.meets_of_memberIds_eq_error (Outcome.map_eq_error.mp h)
    exact Or.inr ⟨m.target, he⟩

/-- A check fails with the error of a binding, at a missing shape or at an unknown format. -/
theorem Check.run_failure (hsound : model.Sound) (hop : op ∈ model.shapes)
    (hdefault : ∃ a, Algorithm.ofName p.checksum = .ok a) {c : Check}
    (h : c.run model p op = .error e) :
    e.IsBinding ∨ e.IsMissing ∨ e.IsUnknownFormat := by
  by_cases hc : ∀ x, c ≠ formatted x
  · exact (other_failure hsound hop hdefault hc h).imp_right Or.inl
  · obtain ⟨x, rfl⟩ := not_forall_not.mp hc
    exact (formatted_failure hsound h).imp_right Or.inr

/-- A check finds no shape under an id exactly when something is wrong with an undeclared target. -/
theorem Check.exists_run_eq_missing (hsound : model.Sound) (hop : op ∈ model.shapes)
    (hdefault : ∃ a, Algorithm.ofName p.checksum = .ok a) {c : Check} :
    (∃ e, c.run model p op = .error e ∧ e.IsMissing) ↔ c.Misses model op := by
  cases c with
  | bound x =>
    rw [Misses, ← Binding.exists_classify_eq_error]
    exact exists_congr fun _ => and_congr_left fun _ => Outcome.map_eq_error
  | formatted x =>
    refine iff_of_false ?_ id
    rintro ⟨e, h, hmissing⟩
    exact (formatted_failure hsound h).elim hmissing.not_isBinding hmissing.not_isUnknownFormat
  | checksum =>
    obtain ⟨input, -, hinput⟩ := hsound.exists_input hop
    rw [Misses, ← ChecksumPolicy.exists_ofShape_eq_error hinput hdefault]
    exact exists_congr fun _ => and_congr_left fun _ => Outcome.map_eq_error
  | walked root =>
    rw [Misses, ← Sensitivity.exists_memberIds_eq_error]
    exact exists_congr fun _ => and_congr_left fun _ => Outcome.map_eq_error

/-- Only the format of a timestamp can be unknown. -/
theorem Check.exists_run_eq_unknownFormat (hsound : model.Sound) (hop : op ∈ model.shapes)
    (hdefault : ∃ a, Algorithm.ofName p.checksum = .ok a) {c : Check} :
    (∃ e, c.run model p op = .error e ∧ e.IsUnknownFormat) ↔ c.Misnames model p := by
  have hother (hc : ∀ x, c ≠ formatted x) :
      ¬ ∃ e, c.run model p op = .error e ∧ e.IsUnknownFormat := by
    rintro ⟨e, h, hunknown⟩
    rcases other_failure hsound hop hdefault hc h with hbinding | hmissing
    · exact hunknown.not_isBinding hbinding
    · exact hmissing.not_isUnknownFormat hunknown
  cases c with
  | formatted x =>
    unfold run Misnames
    dsimp only
    cases hbs : x.classify model with
    | error e => simp
    | ok bs =>
      simp only [Except.ok.injEq, exists_eq_left', checkFormats_eq_error,
        Outcome.exists_firstFault]
      refine Outcome.firstFault_congr_of_mem fun b hb => ?_
      obtain ⟨htext, t, ht, htarget⟩ := exists_target_of_text hbs hb
      exact Format.exists_rule_eq_error hsound htarget ht htext
  | bound x => exact iff_of_false (hother fun _ h => by cases h) id
  | checksum => exact iff_of_false (hother fun _ h => by cases h) id
  | walked root => exact iff_of_false (hother fun _ h => by cases h) id

/-! ## Undeclared targets -/

/-- The shapes that a check is about. -/
def Check.shapes : Check → List Shape
  | bound x => [x.shape]
  | formatted x => [x.shape]
  | checksum => []
  | walked root => [root]

theorem Check.shapes_subset {http : HttpRule} {input output : Shape} {errors : List Shape}
    (hinput : input ∈ model.shapes) (houtput : output ∈ model.shapes)
    (herrors : ∀ e ∈ errors, e ∈ model.shapes) {c : Check}
    (hc : c ∈ all http input output errors) : ∀ s ∈ c.shapes, s ∈ model.shapes := by
  have hmessages : ∀ x ∈ Message.all http input output errors, x.shape ∈ model.shapes :=
    List.forall_mem_cons.mpr ⟨hinput, List.forall_mem_cons.mpr ⟨houtput,
      List.forall_mem_map.mpr herrors⟩⟩
  unfold all at hc
  simp only [List.mem_append, List.mem_map, List.mem_cons, List.not_mem_nil, or_false] at hc
  obtain (⟨x, hx, rfl⟩ | ⟨x, hx, rfl⟩) | rfl | rfl | rfl := hc
  · exact List.forall_mem_singleton.mpr (hmessages x hx)
  · exact List.forall_mem_singleton.mpr (hmessages x hx)
  · exact fun s hs => absurd hs List.not_mem_nil
  · exact List.forall_mem_singleton.mpr hinput
  · exact List.forall_mem_singleton.mpr houtput

theorem mem_members_of_meets {root : Shape} (hroot : root ∈ model.shapes) {m : Member}
    (h : Sensitivity.Meets model root m) : ∃ s ∈ model.shapes, m ∈ s.members := by
  have hstart : Node.shape root ∈ model.nodes := Model.shape_mem_nodes.mpr hroot
  -- every walk stays in the model
  have htop : ∀ n, Walk.Comes (Sensitivity.visitTop model) [] [.shape root] n →
      n ∈ model.nodes := by
    intro n hn
    obtain ⟨k, hk, hreach⟩ := hn.reached
    rw [List.mem_singleton.mp hk] at hreach
    exact Node.mem_nodes_of_reaches (Sensitivity.reaches_of_visitTop hreach) hstart
  refine Model.member_mem_nodes.mp ?_
  cases h with
  | first hm => exact htop _ hm
  | @behind t ht _ hm =>
    obtain ⟨k, hk, hreach⟩ := hm.reached
    rw [List.mem_singleton.mp hk] at hreach
    exact Node.mem_nodes_of_reaches (Sensitivity.reaches_visitAll.mp hreach) (htop t ht)

/-- The id that is missing is the target of a member that lacks it. -/
theorem Check.lacking_of_run (hsound : model.Sound) (hop : op ∈ model.shapes)
    (hdefault : ∃ a, Algorithm.ofName p.checksum = .ok a) {c : Check}
    (hshapes : ∀ s ∈ c.shapes, s ∈ model.shapes) {id : String}
    (h : c.run model p op = .error (.missing (.shape id))) :
    ∃ s ∈ model.shapes, ∃ m ∈ s.members, model.Lacks m ∧ m.target = id := by
  have hmissing : (AnalysisError.missing (.shape id)).IsMissing := ⟨id, rfl⟩
  cases c with
  | bound x =>
    have hx : x.shape ∈ model.shapes := hshapes _ List.mem_cons_self
    obtain ⟨m, hm, hlacks, he⟩ := (Binding.classify_failure
      (Outcome.map_eq_error.mp h)).resolve_left fun hd => hmissing.not_isBinding hd.isBinding
    cases he
    exact ⟨x.shape, hx, m, hm, hlacks, rfl⟩
  | formatted x =>
    exact ((formatted_failure hsound h).elim hmissing.not_isBinding
      hmissing.not_isUnknownFormat).elim
  | checksum =>
    obtain ⟨input, hin, hinput⟩ := hsound.exists_input hop
    obtain ⟨m, hstrays, he⟩ := (ChecksumPolicy.ofShape_eq_error hinput hdefault
      (Outcome.map_eq_error.mp h)).resolve_left hmissing.not_isBinding
    cases he
    obtain ⟨hm, hlacks⟩ := hstrays.mem_input hinput
    exact ⟨input, hin, m, hm, hlacks, rfl⟩
  | walked root =>
    obtain ⟨m, hmeets, hlacks, he⟩ :=
      Sensitivity.meets_of_memberIds_eq_error (Outcome.map_eq_error.mp h)
    cases he
    obtain ⟨s, hs, hm⟩ := mem_members_of_meets (hshapes _ List.mem_cons_self) hmeets
    exact ⟨s, hs, m, hm, hlacks, rfl⟩

/-! ## Operations -/

/-- The first check of an operation that fails, fails in a certain way. -/
def FailsAt (model : Model) (p : Protocol) (op : Shape) (bad : Check → Prop) : Prop :=
  ∃ http input output errors, HttpRule.ofShape op = .ok (some http) ∧
    model.lookup (Model.orUnit op.input) = .ok input ∧
    model.lookup (Model.orUnit op.output) = .ok output ∧
    op.errors.mapM model.lookup = .ok errors ∧
    Outcome.FirstFault (Check.run model p op) bad (Check.all http input output errors)

theorem failsAt_congr {bad bad' : Check → Prop} (h : ∀ c, bad c ↔ bad' c) :
    FailsAt model p op bad ↔ FailsAt model p op bad' := by
  rw [funext fun c => propext (h c)]

/-- An operation ends the work with the failure of its first check that fails. -/
theorem exists_settle_eq_error (hsound : model.Sound) (hop : op ∈ model.shapes)
    {kind : AnalysisError → Prop} (hkind : ∀ e, kind e → ¬ e.IsBinding) :
    (∃ e, settle model p op = .error e ∧ kind e) ↔
      FailsAt model p op fun c => ∃ e, c.run model p op = .error e ∧ kind e := by
  constructor
  · rintro ⟨e, h, he⟩
    obtain ⟨⟨http, hrule, hfail⟩, -⟩ := settle_eq_error.mp h
    obtain ⟨input, -, hinput⟩ := hsound.exists_input hop
    obtain ⟨output, -, houtput⟩ := hsound.exists_output hop
    obtain ⟨errors, herrors, -⟩ := hsound.exists_errors hop
    rw [ofRule_eq_error hinput houtput herrors] at hfail
    exact ⟨http, input, output, errors, hrule, hinput, houtput, herrors,
      Outcome.exists_firstFault.mp ⟨e, hfail, he⟩⟩
  · rintro ⟨http, input, output, errors, hrule, hinput, houtput, herrors, h⟩
    obtain ⟨e, hfail, he⟩ := Outcome.exists_firstFault.mpr h
    have hplan : ofRule model p op http = .error e :=
      (ofRule_eq_error hinput houtput herrors).mpr hfail
    exact ⟨e, settle_eq_error.mpr ⟨⟨http, hrule, hplan⟩, fun b hb => hkind e he ⟨b, hb⟩⟩, he⟩

theorem exists_settle_eq_missing (hsound : model.Sound) (hop : op ∈ model.shapes)
    (hdefault : ∃ a, Algorithm.ofName p.checksum = .ok a) :
    (∃ e, settle model p op = .error e ∧ e.IsMissing) ↔
      FailsAt model p op (Check.Misses model op) := by
  rw [exists_settle_eq_error hsound hop fun e => AnalysisError.IsMissing.not_isBinding]
  exact failsAt_congr fun c => Check.exists_run_eq_missing hsound hop hdefault

/-- Whatever ends the work is a missing shape or an unknown format. -/
theorem exists_settle_eq_error_iff (hsound : model.Sound) (hop : op ∈ model.shapes)
    (hdefault : ∃ a, Algorithm.ofName p.checksum = .ok a) :
    (∃ e, settle model p op = .error e) ↔
      FailsAt model p op fun c => c.Misses model op ∨ c.Misnames model p := by
  have hkind : ∀ e, settle model p op = .error e ↔
      settle model p op = .error e ∧ ¬ e.IsBinding := by
    intro e
    refine (and_iff_left_of_imp fun h => ?_).symm
    rintro ⟨b, rfl⟩
    exact (settle_eq_error.mp h).2 b rfl
  rw [exists_congr hkind, exists_settle_eq_error hsound hop fun e he => he]
  refine failsAt_congr fun c => ?_
  rw [← Check.exists_run_eq_missing hsound hop hdefault,
    ← Check.exists_run_eq_unknownFormat hsound hop hdefault, ← exists_or]
  refine exists_congr fun e => ?_
  rw [← and_or_left]
  refine and_congr_right fun h => ⟨fun hb => ?_, fun h => ?_⟩
  · exact (Check.run_failure hsound hop hdefault h).resolve_left hb
  · exact h.elim AnalysisError.IsMissing.not_isBinding AnalysisError.IsUnknownFormat.not_isBinding

/-! ## All operations -/

variable {service : Option Shape}

/-- Planning ends at a missing shape exactly when that is how the first operation to end the work
fails. -/
theorem exists_ofModel_eq_missing (hsound : model.Sound)
    (hservice : ∀ s, service = some s → s ∈ model.shapes)
    (hdefault : ∃ a, Algorithm.ofName p.checksum = .ok a) :
    (∃ id, ofModel model p service = .error (.analysis (.missing (.shape id)))) ↔
      ∃ ops, model.operations service = .ok ops ∧ Outcome.FirstFault (settle model p)
        (fun op => FailsAt model p op (Check.Misses model op)) ops := by
  obtain ⟨ops, hops, hmem⟩ := hsound.exists_operations hservice
  simp only [ofModel_eq_analysis hsound hservice, hops, Except.ok.injEq, exists_eq_left']
  have hexists : (∃ id, Outcome.FirstFault (settle model p)
        (fun op => settle model p op = .error (.missing (.shape id))) ops) ↔
      ∃ e, Outcome.FirstFault (settle model p) (fun op => settle model p op = .error e) ops ∧
        e.IsMissing :=
    ⟨fun ⟨id, h⟩ => ⟨_, h, id, rfl⟩, fun ⟨_, h, id, he⟩ => ⟨id, he ▸ h⟩⟩
  rw [hexists, Outcome.exists_firstFault]
  exact Outcome.firstFault_congr_of_mem fun op hop =>
    exists_settle_eq_missing hsound (hmem op hop) hdefault

/-- A missing shape is the undeclared target of an enum's member. -/
theorem lacking_of_ofModel (hsound : model.Sound)
    (hservice : ∀ s, service = some s → s ∈ model.shapes)
    (hdefault : ∃ a, Algorithm.ofName p.checksum = .ok a) {id : String}
    (h : ofModel model p service = .error (.analysis (.missing (.shape id)))) :
    ∃ s ∈ model.shapes, s.kind.IsEnum ∧ ∃ m ∈ s.members, model.Lacks m ∧ m.target = id := by
  obtain ⟨ops, hops, hmem⟩ := hsound.exists_operations hservice
  obtain ⟨ops', hops', before, op, after, hsplit, -, hsettle⟩ :=
    (ofModel_eq_analysis hsound hservice).mp h
  obtain rfl : ops = ops' := Except.ok.inj (hops ▸ hops')
  have hop : op ∈ model.shapes := hmem op (hsplit ▸ List.mem_append_right _ List.mem_cons_self)
  obtain ⟨⟨http, -, hrule⟩, -⟩ := settle_eq_error.mp hsettle
  obtain ⟨input, hin, hinput⟩ := hsound.exists_input hop
  obtain ⟨output, hout, houtput⟩ := hsound.exists_output hop
  obtain ⟨errors, herrors, herr⟩ := hsound.exists_errors hop
  obtain ⟨_, c, _, hchecks, -, hrun⟩ := (ofRule_eq_error hinput houtput herrors).mp hrule
  have hc : c ∈ Check.all http input output errors :=
    hchecks ▸ List.mem_append_right _ List.mem_cons_self
  obtain ⟨s, hs, m, hm, hlacks, hid⟩ := Check.lacking_of_run hsound hop hdefault
    (Check.shapes_subset hin hout herr hc) hrun
  exact ⟨s, hs, hsound.isEnum_of_lacks hs hm hlacks, m, hm, hlacks, hid⟩

end Plan

end Wireform
