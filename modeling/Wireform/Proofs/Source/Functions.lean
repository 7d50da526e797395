import Wireform.Proofs.Binding.Formats
import Wireform.Proofs.Plan.Checks
import Wireform.Proofs.Source.Records
import Wireform.Source.Module

/-
  Wireform source text: which functions of a planned operation can be written. Whatever planning has
  checked can be: there is a format for each binding and a hint for each payload. What is left are
  the default of a checksum's algorithm member and the statuses of errors.
-/

namespace Wireform.Source

variable {model : Model} {p : Protocol} {m : Member} {t : Shape} {n : Nat}

/-! ## Hints of bound members -/

theorem hinted_of_kind (h : t.kind ∉ [.list, .set, .map, .operation, .service]) :
    model.Hinted (n + 1) t := by
  simp only [List.mem_cons, List.not_mem_nil, or_false, not_or] at h
  obtain ⟨hlist, hset, hmap, hoperation, hservice⟩ := h
  refine .plain ?_ hoperation hservice
  simp [ShapeKind.Holds, ShapeKind.isCollection, hlist, hset, hmap]

theorem hinted_of_transformOf {l : Location} {elementMember : Member} {r : Transform × Bool}
    (h : Format.transformOf model p l m elementMember t = .ok r) : model.Hinted (n + 1) t := by
  refine hinted_of_kind fun hkind => ?_
  simp only [List.mem_cons, List.not_mem_nil, or_false] at hkind
  rcases hkind with hkind | hkind | hkind | hkind | hkind
  all_goals
    simp [Format.transformOf, Shape.isEnum, Format.scalarOf?, hkind, throw, throwThe,
      MonadExceptOf.throw] at h

theorem hinted_of_isPayloadKind (h : Binding.isPayloadKind t.kind = true) :
    model.Hinted (n + 1) t := by
  refine hinted_of_kind fun hkind => ?_
  simp only [List.mem_cons, List.not_mem_nil, or_false] at hkind
  rcases hkind with hkind | hkind | hkind | hkind | hkind
  all_goals exact absurd (hkind ▸ h) (by decide)

/-- A member leads to its element through a map, a list or both. -/
theorem hinted_of_elementOf {l : Location} {x : Member × Shape × Bool}
    (h : Format.elementOf model l m = .ok x) (helement : ∀ n, model.Hinted (n + 1) x.2.1)
    (ht : model.targetOf m = .ok t) : model.Hinted (n + 3) t := by
  obtain ⟨v, hv, h⟩ := Outcome.bind_eq_ok.mp h
  obtain ⟨u, hu, h⟩ := Outcome.bind_eq_ok.mp h
  have hvalue : ∀ n, model.Hinted (n + 2) u := by
    intro n
    split at h
    · cases h
      exact helement (n + 1)
    · next hcollection =>
      obtain ⟨w, hw, h⟩ := Outcome.bind_eq_ok.mp h
      split at h
      · cases h
      · cases h
        exact .holds ⟨Or.inl (by simpa using hcollection), hw⟩ (helement n)
  unfold Format.valueMember at hv
  split at hv
  · obtain ⟨t', ht', hv⟩ := Outcome.bind_eq_ok.mp hv
    obtain rfl : t = t' := Except.ok.inj (ht ▸ ht')
    split at hv
    · cases hv
    · next hmap =>
      cases hv
      exact .holds ⟨Or.inr (not_not.mp hmap), hu⟩ (hvalue n)
  · cases hv
    obtain rfl : t = u := Except.ok.inj (ht ▸ hu)
    exact hvalue (n + 1)

/-- A member that has a text form has a hint. -/
theorem hinted_of_rule {l : Location} {f : Format} (h : Format.rule model p l m = .ok f)
    (ht : model.targetOf m = .ok t) : model.Hinted (n + 3) t := by
  obtain ⟨_, hruled⟩ := Format.ruled_of_rule h
  exact hinted_of_elementOf hruled.element (fun _ => hinted_of_transformOf hruled.transform) ht

/-! ## Bindings that can be written -/

/-- Whatever is bound outside the document has a target, whatever travels as text has a format, and
there is a hint for text and payloads. -/
structure Served (w : Writer) (b : Binding) : Prop where
  target : b.location ≠ .document → ∃ t ∈ w.model.shapes, w.model.targetOf b.member = .ok t
  format : b.location.isText = true → ∃ f, w.formatOf b = .ok f
  hinted : b.location.isText = true ∨ b.location = .payload →
    ∀ t, w.model.targetOf b.member = .ok t → w.model.Hinted TypeHint.stackRoom t

/-- Planning has checked what the functions of a binding need. -/
theorem served_of_checked {w : Writer} {plan : Plan} (h : Plan.Checked w.model w.protocol plan)
    {x : Plan.Message × List Binding} (hx : x ∈ plan.exchanges) {b : Binding} (hb : b ∈ x.2) :
    Served w b := by
  have hformat : b.location.isText = true →
      ∃ f, Format.ofBinding w.model w.protocol b = .ok f := by
    intro htext
    have hformats := Outcome.forM_eq_ok.mp (h.formatted x hx) b (List.mem_filter.mpr ⟨hb, htext⟩)
    exact Outcome.exists_map_eq_ok.mp ⟨(), hformats⟩
  refine ⟨fun hl => ?_, fun htext => ?_, ?_⟩
  · obtain ⟨t, -, -, ht, -⟩ := Binding.classify_target (h.classified x hx) hb hl
    exact ⟨t, Model.mem_shapes_of_get (Model.targetOf_eq_ok.mp ht), ht⟩
  · exact (hformat htext).imp fun f hf => lift_eq_ok.mpr hf
  · rintro (htext | hpayload) t ht
    · obtain ⟨f, hf⟩ := hformat htext
      exact hinted_of_rule hf ht
    · obtain ⟨t', trait, -, ht', hlocation⟩ := Binding.classify_target (h.classified x hx) hb
        (hpayload ▸ by decide)
      obtain rfl : t = t' := Except.ok.inj (ht ▸ ht')
      rw [hpayload] at hlocation
      unfold Binding.ofLocation at hlocation
      dsimp only at hlocation
      split at hlocation
      · next hkind => exact hinted_of_isPayloadKind hkind
      · cases hlocation

namespace Served

variable {w : Writer} {b : Binding} {x : Exchange} {bad : GenerateError → Prop}

theorem failsOnly_formatOf (h : Served w b) (hl : b.location.isText = true) :
    Outcome.FailsOnly bad (w.formatOf b) := by
  obtain ⟨f, hf⟩ := h.format hl
  exact Outcome.failsOnly_of_eq_ok hf

theorem failsOnly_targetOf (h : Served w b) (hl : b.location ≠ .document) :
    Outcome.FailsOnly bad (GenerateError.lift (w.model.targetOf b.member)) := by
  obtain ⟨t, -, ht⟩ := h.target hl
  exact failsOnly_lift ht

theorem failsOnly_isSensitive (h : Served w b) (hl : b.location ≠ .document) :
    Outcome.FailsOnly bad (w.isSensitive b.member) := by
  obtain ⟨t, -, ht⟩ := h.target hl
  have hok : ∃ r, w.model.isSensitive b.member = .ok r := by
    unfold Model.isSensitive
    split
    · exact ⟨true, rfl⟩
    · exact ⟨_, Outcome.map_eq_ok.mpr ⟨t, Outcome.mapError_eq_ok.mp ht, rfl⟩⟩
  obtain ⟨r, hr⟩ := hok
  exact failsOnly_lift (Outcome.mapError_eq_ok.mpr hr)

/-- The hint of the target of a member that is text or a payload. -/
theorem failsOnly_ofShape (hsound : w.model.Sound) (h : Served w b)
    (hl : b.location.isText = true ∨ b.location = .payload) {t : Shape}
    (ht : GenerateError.lift (w.model.targetOf b.member) = .ok t) :
    Outcome.FailsOnly bad (TypeHint.ofShape w.model none t) := by
  have ht := lift_eq_ok.mp ht
  have hmem : t ∈ w.model.shapes := Model.mem_shapes_of_get (Model.targetOf_eq_ok.mp ht)
  obtain ⟨hint, hhint⟩ := (TypeHint.exists_ofShapeWithin_iff hsound hmem).mpr (h.hinted hl t ht)
  exact Outcome.failsOnly_of_eq_ok hhint

theorem failsOnly_ofMember (hsound : w.model.Sound) (h : Served w b)
    (hl : b.location.isText = true) :
    Outcome.FailsOnly bad (TypeHint.ofMember w.model b.member) :=
  .bind (h.failsOnly_targetOf fun hd => by rw [hd] at hl; cases hl)
    fun _ ht => h.failsOnly_ofShape hsound (Or.inl hl) ht

end Served

/-! ## Functions of members -/

section

variable {w : Writer} {b : Binding} {x : Exchange} {bad : GenerateError → Prop}

theorem failsOnly_addHeaderLines (h : Served w b) :
    Outcome.FailsOnly bad (addHeaderLines w x b) := by
  unfold addHeaderLines
  split
  · next hl =>
    exact .bind (h.failsOnly_formatOf (hl ▸ rfl)) fun _ _ =>
      .bind (h.failsOnly_isSensitive (hl ▸ by decide)) fun _ _ => Outcome.failsOnly_ok _
  · next hl =>
    exact .bind (h.failsOnly_formatOf (hl ▸ rfl)) fun _ _ =>
      .bind (h.failsOnly_isSensitive (hl ▸ by decide)) fun _ _ => Outcome.failsOnly_ok _
  · exact Outcome.failsOnly_ok _

theorem failsOnly_addHeaders (h : ∀ b ∈ x.bindings, Served w b) :
    Outcome.FailsOnly bad (addHeaders w x) :=
  .bind (.mapM fun b hb => failsOnly_addHeaderLines (h b hb)) fun _ _ => Outcome.failsOnly_ok _

theorem failsOnly_readHeader (hsound : w.model.Sound) (h : Served w b)
    (hl : b.location.isText = true) : Outcome.FailsOnly bad (readHeader w x b) :=
  .bind (h.failsOnly_formatOf hl) fun _ _ =>
    .bind (h.failsOnly_ofMember hsound hl) fun _ _ => Outcome.failsOnly_ok _

theorem failsOnly_readPrefixHeader (hsound : w.model.Sound) (h : Served w b)
    (hl : b.location.isText = true) : Outcome.FailsOnly bad (readPrefixHeader w x b) :=
  .bind (h.failsOnly_formatOf hl) fun _ _ =>
    .bind (h.failsOnly_ofMember hsound hl) fun _ _ => Outcome.failsOnly_ok _

theorem failsOnly_writePayload (hsound : w.model.Sound) (h : Served w b)
    (hl : b.location = .payload) : Outcome.FailsOnly bad (writePayload w x b) :=
  .bind (h.failsOnly_targetOf (hl ▸ by decide)) fun _ ht =>
    .bind (h.failsOnly_ofShape hsound (Or.inr hl) ht) fun _ _ => Outcome.failsOnly_ok _

theorem failsOnly_readPayload (hsound : w.model.Sound) (h : Served w b)
    (hl : b.location = .payload) : Outcome.FailsOnly bad (readPayload w x b) := by
  refine .bind (h.failsOnly_targetOf (hl ▸ by decide)) fun t ht => ?_
  dsimp only
  split
  · exact Outcome.failsOnly_ok _
  · split
    · exact Outcome.failsOnly_ok _
    · exact .bind (h.failsOnly_ofShape hsound (Or.inr hl) ht) fun _ _ => Outcome.failsOnly_ok _

theorem failsOnly_memberFunctions (hsound : w.model.Sound) (h : Served w b) :
    Outcome.FailsOnly bad (memberFunctions w x b) := by
  unfold memberFunctions
  split
  · next hl =>
    exact .bind (failsOnly_readHeader hsound h (hl ▸ rfl)) fun _ _ => Outcome.failsOnly_ok _
  · next hl =>
    exact .bind (failsOnly_readPrefixHeader hsound h (hl ▸ rfl)) fun _ _ => Outcome.failsOnly_ok _
  · next hl =>
    exact .bind (failsOnly_writePayload hsound h hl) fun _ _ =>
      .bind (failsOnly_readPayload hsound h hl) fun _ _ => Outcome.failsOnly_ok _
  · exact Outcome.failsOnly_ok _

theorem failsOnly_containerFunctions (hsound : w.model.Sound) (h : ∀ b ∈ x.bindings, Served w b) :
    Outcome.FailsOnly bad (containerFunctions w x) :=
  .map (.mapM fun b hb => failsOnly_memberFunctions hsound (h b hb)) _

/-! ## Functions of messages -/

theorem failsOnly_bodyLines (h : ∀ b ∈ x.bindings, Served w b) :
    Outcome.FailsOnly bad (bodyLines w x) := by
  unfold bodyLines
  split
  · next b hb =>
    have hl : b.location = .payload := by simpa using List.find?_some hb
    have hserved := h b (List.mem_of_find?_eq_some hb)
    exact .bind (hserved.failsOnly_targetOf (hl ▸ by decide)) fun _ _ => Outcome.failsOnly_ok _
  · split
    · exact Outcome.failsOnly_ok _
    · exact Outcome.failsOnly_ok _

theorem failsOnly_assignment {message : String} (h : Served w b) :
    Outcome.FailsOnly bad (assignment w x message b) := by
  unfold assignment
  dsimp only
  split
  · exact Outcome.failsOnly_ok _
  · exact Outcome.failsOnly_ok _
  · next hl => exact .bind (h.failsOnly_formatOf (hl ▸ rfl)) fun _ _ => Outcome.failsOnly_ok _
  · next hl => exact .bind (h.failsOnly_formatOf (hl ▸ rfl)) fun _ _ => Outcome.failsOnly_ok _
  · next hl => exact .bind (h.failsOnly_formatOf (hl ▸ rfl)) fun _ _ => Outcome.failsOnly_ok _
  · exact Outcome.failsOnly_ok _
  · exact Outcome.failsOnly_ok _
  · exact Outcome.failsOnly_ok _

theorem failsOnly_resultLines {message : String} (h : ∀ b ∈ x.bindings, Served w b) :
    Outcome.FailsOnly bad (resultLines w x message) := by
  refine .bind (.mapM fun b hb => failsOnly_assignment (h b hb)) fun _ _ => ?_
  split
  · exact Outcome.failsOnly_ok _
  · exact Outcome.failsOnly_ok _

/-! ## Paths and queries -/

theorem exists_labelBinding? {plan : Plan} (hchecked : Plan.Checked model p plan) {s : Segment}
    (hs : s ∈ plan.http.uri.segments) (hlabel : s.isLabel = true) :
    ∃ b, labelBinding? plan s.content = some b := by
  have hunbound := Binding.unbound?_eq_none (hchecked.classified _ List.mem_cons_self)
  have hname : s.content ∈ (Binding.located .label plan.request).map (·.name) := by
    simpa using List.find?_eq_none.mp hunbound s.content (Pattern.content_mem_labels hs hlabel)
  obtain ⟨b, hb, hcontent⟩ := List.mem_map.mp hname
  unfold labelBinding?
  rw [← Option.isSome_iff_exists, List.find?_isSome]
  exact ⟨b, List.mem_reverse.mpr hb, decide_eq_true hcontent⟩

theorem failsOnly_writePath {plan : Plan} (hchecked : Plan.Checked w.model w.protocol plan)
    (h : ∀ b ∈ plan.request, Served w b) : Outcome.FailsOnly bad (writePath w plan) := by
  refine .bind (.mapM fun s hs => ?_) fun _ _ => Outcome.failsOnly_ok _
  unfold pathPart
  split
  · exact Outcome.failsOnly_ok _
  · next hlabel =>
    obtain ⟨b, hb⟩ := exists_labelBinding? hchecked hs (by simpa using hlabel)
    have hlocated : b ∈ plan.request ∧ b.location = .label := by
      have hmem := List.mem_reverse.mp (List.mem_of_find?_eq_some hb)
      simpa [Binding.located] using hmem
    rw [hb]
    exact .bind ((h b hlocated.1).failsOnly_formatOf (hlocated.2 ▸ rfl)) fun _ _ =>
      Outcome.failsOnly_ok _

theorem failsOnly_writeQuery {plan : Plan} (h : ∀ b ∈ plan.request, Served w b) :
    Outcome.FailsOnly bad (writeQuery w plan) := by
  have hformat : ∀ l, l.isText = true → ∀ b ∈ Binding.located l plan.request,
      Outcome.FailsOnly bad (w.formatOf b) := by
    intro l hl b hb
    obtain ⟨hb, hlocation⟩ := List.mem_filter.mp hb
    exact (h b hb).failsOnly_formatOf (of_decide_eq_true hlocation ▸ hl)
  refine .bind (.mapM fun b hb => ?_) fun _ _ => .bind (.mapM fun b hb => ?_) fun _ _ =>
    Outcome.failsOnly_ok _
  · exact .bind (hformat .query rfl b hb) fun _ _ => Outcome.failsOnly_ok _
  · exact .bind (hformat .queryParams rfl b hb) fun _ _ => Outcome.failsOnly_ok _

/-! ## Checksums -/

/-- The algorithm member of a checksum policy has values, from which its default is taken. -/
def HasDefault (model : Model) (plan : Plan) : Prop :=
  ∀ policy m t, plan.checksum = some policy → policy.requestMember = some m →
    model.targetOf m = .ok t → HasValues t

/-- The algorithm member of a policy is one of the operation's input, and its target is text. -/
theorem requestMember_of_policy {op : Shape} {policy : ChecksumPolicy}
    (h : ChecksumPolicy.ofShape model p op = .ok (some policy)) {m : Member}
    (hm : policy.requestMember = some m) : ∃ input t, model.lookup (Model.orUnit op.input) =
      .ok input ∧ m ∈ input.members ∧ model.targetOf m = .ok t ∧ t.isString = true := by
  unfold ChecksumPolicy.ofShape at h
  split at h
  · cases h
  · obtain ⟨responses, -, h⟩ := Outcome.bind_eq_ok.mp h
    obtain ⟨validation, -, h⟩ := Outcome.bind_eq_ok.mp h
    split at h
    · cases h
    obtain ⟨default, -, h⟩ := Outcome.bind_eq_ok.mp h
    obtain ⟨request, hrequest, h⟩ := Outcome.bind_eq_ok.mp h
    cases h
    subst hm
    unfold ChecksumPolicy.inputMember at hrequest
    split at hrequest
    · cases hrequest
    obtain ⟨input, hinput, hrequest⟩ := Outcome.bind_eq_ok.mp hrequest
    split at hrequest
    · cases hrequest
    · next m' hmember =>
      obtain ⟨t, ht, hrequest⟩ := Outcome.bind_eq_ok.mp hrequest
      split at hrequest
      · cases hrequest
      · next hstring =>
        cases hrequest
        exact ⟨input, t, hinput, List.mem_of_find?_eq_some hmember, ht, by simpa using hstring⟩

theorem exists_target_of_policy {op : Shape} {policy : ChecksumPolicy}
    (h : ChecksumPolicy.ofShape model p op = .ok (some policy)) {m : Member}
    (hm : policy.requestMember = some m) : ∃ t, model.targetOf m = .ok t := by
  obtain ⟨-, t, -, -, ht, -⟩ := requestMember_of_policy h hm
  exact ⟨t, ht⟩

theorem defaultValue_eq {policy : ChecksumPolicy} {m : Member} {t : Shape}
    (hm : policy.requestMember = some m) (ht : model.targetOf m = .ok t) :
    policy.defaultValue model = (t.enumValues.mapError .missing).map fun values =>
      ((values.map fun v => v.2.plain).find? fun s =>
        Text.lowered s = policy.default.name).getD (Text.uppered policy.default.name) := by
  unfold ChecksumPolicy.defaultValue
  rw [hm]
  dsimp only
  rw [ht]
  rfl

theorem algorithmMember_eq {plan : Plan} {policy : ChecksumPolicy} {m : Member} :
    (plan.checksum.bind fun c => c.requestMember.map (c, ·)) = some (policy, m) ↔
      plan.checksum = some policy ∧ policy.requestMember = some m := by
  simp only [Option.bind_eq_some_iff, Option.map_eq_some_iff, Prod.mk.injEq]
  constructor
  · rintro ⟨_, hchecksum, _, hm, rfl, rfl⟩
    exact ⟨hchecksum, hm⟩
  · rintro ⟨hchecksum, hm⟩
    exact ⟨policy, hchecksum, m, hm, rfl, rfl⟩

/-- The lines that give an algorithm member its default are written from the values of its
target. -/
theorem checksumDefaultLines_eq {plan : Plan} {policy : ChecksumPolicy} {m : Member} {t : Shape}
    (hchecksum : plan.checksum = some policy) (hm : policy.requestMember = some m)
    (ht : w.model.targetOf m = .ok t) : ∃ write : List (String × Json) → List String,
      checksumDefaultLines w plan =
        (GenerateError.lift (t.enumValues.mapError .missing)).map write := by
  unfold checksumDefaultLines
  rw [algorithmMember_eq.mpr ⟨hchecksum, hm⟩]
  dsimp only
  rw [ht, defaultValue_eq hm ht]
  cases t.enumValues with
  | error e => exact ⟨fun _ => [], rfl⟩
  | ok values => exact ⟨fun _ => _, rfl⟩

theorem exists_checksumDefaultLines_iff {plan : Plan}
    (hchecked : Plan.Checked w.model w.protocol plan) :
    (∃ ls, checksumDefaultLines w plan = .ok ls) ↔ HasDefault w.model plan := by
  cases hpolicy : plan.checksum.bind fun c => c.requestMember.map (c, ·) with
  | none =>
    have hnone : HasDefault w.model plan := by
      intro policy m t hchecksum hm
      rw [algorithmMember_eq.mpr ⟨hchecksum, hm⟩] at hpolicy
      cases hpolicy
    refine iff_of_true ⟨[], ?_⟩ hnone
    unfold checksumDefaultLines
    rw [hpolicy]
    rfl
  | some x =>
    obtain ⟨hchecksum, hm⟩ := algorithmMember_eq.mp hpolicy
    obtain ⟨t, ht⟩ := exists_target_of_policy (hchecksum ▸ hchecked.checksum) hm
    obtain ⟨write, hlines⟩ := checksumDefaultLines_eq hchecksum hm ht
    have hvalues : (∃ ls, checksumDefaultLines w plan = .ok ls) ↔ HasValues t := by
      rw [hlines, Outcome.exists_map_eq_ok, ← exists_enumValues_iff]
      simp only [lift_eq_ok, Outcome.mapError_eq_ok]
    rw [hvalues]
    constructor
    · intro h policy m u hchecksum' hm' hu
      obtain rfl : x.1 = policy := Option.some.inj (hchecksum ▸ hchecksum')
      obtain rfl : x.2 = m := Option.some.inj (hm ▸ hm')
      exact Except.ok.inj (ht ▸ hu) ▸ h
    · exact fun h => h _ _ t hchecksum hm ht

theorem failsOnly_checksumDefaultLines {plan : Plan}
    (hchecked : Plan.Checked w.model w.protocol plan) :
    Outcome.FailsOnly Unreadable (checksumDefaultLines w plan) := by
  cases hpolicy : plan.checksum.bind fun c => c.requestMember.map (c, ·) with
  | none =>
    unfold checksumDefaultLines
    rw [hpolicy]
    exact Outcome.failsOnly_ok _
  | some x =>
    obtain ⟨hchecksum, hm⟩ := algorithmMember_eq.mp hpolicy
    obtain ⟨t, ht⟩ := exists_target_of_policy (hchecksum ▸ hchecked.checksum) hm
    obtain ⟨write, hlines⟩ := checksumDefaultLines_eq hchecksum hm ht
    rw [hlines]
    exact failsOnly_liftValues.map write

/-! ## Statuses -/

/-- The status that an error names is a whole number. -/
def HasStatus (error : Shape) : Prop :=
  ∀ j, (error.traits.get? Trait.httpError).filter Json.isTruthy = some j →
    ∃ n, j.toWhole = .ok n

theorem exists_errorStatus_iff {error : Shape} :
    (∃ n, errorStatus error = .ok n) ↔ HasStatus error := by
  unfold errorStatus HasStatus
  cases (error.traits.get? Trait.httpError).filter Json.isTruthy with
  | none => simp
  | some j => simp [Outcome.mapError_eq_ok]

theorem failsOnly_errorStatus {error : Shape} :
    Outcome.FailsOnly Unreadable (errorStatus error) := by
  unfold errorStatus
  split
  · exact Outcome.failsOnly_mapError.mpr fun e _ => .number e
  · exact Outcome.failsOnly_ok _

/-! ## Functions of operations -/

theorem failsOnly_responseLines {status : Int} (h : ∀ b ∈ x.bindings, Served w b) :
    Outcome.FailsOnly bad (responseLines w x status) :=
  .bind (failsOnly_bodyLines h) fun _ _ => Outcome.failsOnly_ok _

theorem failsOnly_responseFunctions (hsound : w.model.Sound) (h : ∀ b ∈ x.bindings, Served w b)
    {write read : Writer → Exchange → Except GenerateError Definition}
    (hwrite : Outcome.FailsOnly bad (write w x)) (hread : Outcome.FailsOnly bad (read w x)) :
    Outcome.FailsOnly bad (responseFunctions w x write read) :=
  .bind (failsOnly_addHeaders h) fun _ _ => .bind (failsOnly_containerFunctions hsound h)
    fun _ _ => .bind hwrite fun _ _ => .bind hread fun _ _ => Outcome.failsOnly_ok _

/-- The functions of a request fail only where the default of its checksum does. -/
theorem failsOnly_requestFunctions (hsound : w.model.Sound)
    (hchecked : Plan.Checked w.model w.protocol x.plan) (h : ∀ b ∈ x.bindings, Served w b)
    (hrequest : ∀ b ∈ x.plan.request, Served w b)
    (hdefault : Outcome.FailsOnly bad (checksumDefaultLines w x.plan)) :
    Outcome.FailsOnly bad (requestFunctions w x) := by
  refine .bind (failsOnly_addHeaders h) fun _ _ =>
    .bind (failsOnly_writePath hchecked hrequest) fun _ _ =>
    .bind (failsOnly_writeQuery hrequest) fun _ _ =>
    .bind (failsOnly_containerFunctions hsound h) fun _ _ =>
    .bind ?_ fun _ _ => .bind ?_ fun _ _ => Outcome.failsOnly_ok _
  · exact .bind hdefault fun _ _ => .bind (failsOnly_bodyLines h) fun _ _ => Outcome.failsOnly_ok _
  · exact .bind (failsOnly_resultLines h) fun _ _ => Outcome.failsOnly_ok _

/-- The functions of an operation fail only where the default of its checksum or the status of an
error does. -/
theorem failsOnly_operationFunctions (hsound : w.model.Sound) {plan : Plan}
    (hchecked : Plan.Checked w.model w.protocol plan)
    (hdefault : Outcome.FailsOnly bad (checksumDefaultLines w plan))
    (hstatus : ∀ x ∈ plan.errors, Outcome.FailsOnly bad (errorStatus x.1)) :
    Outcome.FailsOnly bad (operationFunctions w plan) := by
  have hrequest : ∀ b ∈ plan.request, Served w b := fun b hb =>
    served_of_checked hchecked (x := (⟨.request, some plan.http.uri, plan.input⟩, plan.request))
      List.mem_cons_self hb
  have hresponse : ∀ b ∈ plan.response, Served w b := fun b hb =>
    served_of_checked hchecked (x := (⟨.response, none, plan.output⟩, plan.response))
      (List.mem_cons_of_mem _ List.mem_cons_self) hb
  refine .bind (failsOnly_requestFunctions hsound hchecked hrequest hrequest hdefault)
    fun _ _ => .bind ?_ fun _ _ => .bind (.mapM fun x hx => ?_) fun _ _ => Outcome.failsOnly_ok _
  · refine failsOnly_responseFunctions hsound hresponse ?_ ?_
    · exact .bind (failsOnly_responseLines hresponse) fun _ _ => Outcome.failsOnly_ok _
    · exact .bind (failsOnly_resultLines hresponse) fun _ _ => Outcome.failsOnly_ok _
  · have hserved : ∀ b ∈ x.2, Served w b := fun b hb =>
      served_of_checked hchecked (List.mem_cons_of_mem _ (List.mem_cons_of_mem _
        (List.mem_map_of_mem hx))) hb
    refine failsOnly_responseFunctions hsound hserved ?_ ?_
    · exact .bind (hstatus x hx) fun _ _ => .bind (failsOnly_responseLines hserved) fun _ _ =>
        Outcome.failsOnly_ok _
    · exact .bind (failsOnly_resultLines hserved) fun _ _ => Outcome.failsOnly_ok _

/-- The functions of a planned operation can be written if its checksum has a default and each of
its errors a status. -/
theorem exists_operationFunctions_iff (hsound : w.model.Sound) {plan : Plan}
    (hchecked : Plan.Checked w.model w.protocol plan) :
    (∃ fs, operationFunctions w plan = .ok fs) ↔
      HasDefault w.model plan ∧ ∀ x ∈ plan.errors, HasStatus x.1 := by
  constructor
  · rintro ⟨fs, h⟩
    obtain ⟨request, hrequest, h⟩ := Outcome.bind_eq_ok.mp h
    obtain ⟨_, -, h⟩ := Outcome.bind_eq_ok.mp h
    obtain ⟨errors, herrors, -⟩ := Outcome.bind_eq_ok.mp h
    refine ⟨?_, fun x hx => ?_⟩
    · obtain ⟨_, -, h⟩ := Outcome.bind_eq_ok.mp hrequest
      obtain ⟨_, -, h⟩ := Outcome.bind_eq_ok.mp h
      obtain ⟨_, -, h⟩ := Outcome.bind_eq_ok.mp h
      obtain ⟨_, -, h⟩ := Outcome.bind_eq_ok.mp h
      obtain ⟨_, hwrite, -⟩ := Outcome.bind_eq_ok.mp h
      obtain ⟨ls, hls, -⟩ := Outcome.bind_eq_ok.mp hwrite
      exact (exists_checksumDefaultLines_iff hchecked).mp ⟨ls, hls⟩
    · obtain ⟨_, -, h⟩ := Outcome.exists_of_mem_mapM herrors hx
      obtain ⟨_, -, h⟩ := Outcome.bind_eq_ok.mp h
      obtain ⟨_, -, h⟩ := Outcome.bind_eq_ok.mp h
      obtain ⟨_, hwrite, -⟩ := Outcome.bind_eq_ok.mp h
      obtain ⟨n, hn, -⟩ := Outcome.bind_eq_ok.mp hwrite
      exact exists_errorStatus_iff.mp ⟨n, hn⟩
  · rintro ⟨hdefault, hstatus⟩
    rw [← Outcome.failsOnly_false]
    refine failsOnly_operationFunctions hsound hchecked ?_ fun x hx => ?_
    · exact Outcome.failsOnly_false.mpr ((exists_checksumDefaultLines_iff hchecked).mpr hdefault)
    · exact Outcome.failsOnly_false.mpr (exists_errorStatus_iff.mpr (hstatus x hx))

end

end Wireform.Source
