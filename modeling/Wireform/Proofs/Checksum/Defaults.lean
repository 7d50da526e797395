import Wireform.Proofs.Checksum.Attachment
import Wireform.Proofs.Source.ClassNames
import Wireform.Proofs.Source.Quoting

/-
  Wireform checksums: the algorithm that is sent where the caller names none. An operation can take
  its algorithm in a member, and then the request says which one was used: with a value of the
  member's enum that names the default, or else with the name in capitals. `default_stored_iff` says
  that this text always names the default, and that it is a value of the enum, and the call that
  the module makes for it finds a member, exactly if some value names the default. Nothing else is
  asked of the enum before the module is written.
-/

namespace Wireform

/-! ## Calls of enums -/

namespace Source

/-- Two characters with code units in front of others, which are the same throughout. -/
theorem codeUnits_append_inj {c d : Char} {x y : List Nat}
    (h : codeUnits c ++ x = codeUnits d ++ y) : c = d ∧ x = y := by
  have hc : c.toNat < 0xd800 ∨ 0xdfff < c.toNat ∧ c.toNat < 0x110000 := c.valid
  have hd : d.toNat < 0xd800 ∨ 0xdfff < d.toNat ∧ d.toNat < 0x110000 := d.valid
  unfold codeUnits at h
  have hsame : c.toNat = d.toNat ∧ x = y := by
    split at h <;> split at h
    all_goals
      simp only [List.cons_append, List.nil_append, List.cons.injEq] at h
      refine ⟨by omega, ?_⟩
    · exact h.2
    · omega
    · omega
    · exact h.2.2
  exact ⟨Char.toNat_inj.mp hsame.1, hsame.2⟩

theorem flatMap_codeUnits_injective {s t : List Char}
    (h : s.flatMap codeUnits = t.flatMap codeUnits) : s = t := by
  have hne : ∀ c : Char, codeUnits c ≠ [] := fun c => by
    unfold codeUnits
    split <;> exact List.cons_ne_nil _ _
  induction s generalizing t with
  | nil =>
    cases t with
    | nil => rfl
    | cons d t => exact absurd (List.append_eq_nil_iff.mp h.symm).1 (hne d)
  | cons c s ih =>
    cases t with
    | nil => exact absurd (List.append_eq_nil_iff.mp h).1 (hne c)
    | cons d t =>
      obtain ⟨rfl, hrest⟩ := codeUnits_append_inj h
      rw [ih hrest]

/-- Two literals in double quotes have one value only if they are of one text. -/
theorem literalValue?_textLiteral_inj {s t : String} :
    literalValue? (textLiteral s) = literalValue? (textLiteral t) ↔ s = t := by
  rw [literalValue?_textLiteral, literalValue?_textLiteral, Option.some_inj]
  exact ⟨fun h => String.toList_inj.mp (flatMap_codeUnits_injective h), fun h => h ▸ rfl⟩

/-- The member that a call of an enum's class finds for a literal: the first of its value. The call
fails if there is none. -/
def EnumClass.called? (e : EnumClass) (literal : String) : Option String :=
  (e.members.find? fun m => literalValue? m.2 = literalValue? literal).map Prod.fst

/-- A call with a text finds a member if it is one of the values. -/
theorem exists_called_iff {t : Shape} {e : EnumClass} {values : List (String × Json)} {s : String}
    (hkind : t.kind ≠ .intEnum) (hvalues : t.enumValues = .ok values)
    (h : EnumClass.ofShape t = .ok e) :
    (∃ n, e.called? (textLiteral s) = some n) ↔ s ∈ values.map fun v => v.2.plain := by
  obtain ⟨values', hvalues', h⟩ := Outcome.bind_eq_ok.mp h
  cases hvalues.symm.trans (Outcome.mapError_eq_ok.mp (lift_eq_ok.mp hvalues'))
  obtain ⟨members, hmembers, h⟩ := Outcome.bind_eq_ok.mp h
  have hsame : List.Forall₂ (fun v m => m.2 = textLiteral v.2.plain) values members := by
    refine (Outcome.mapM_eq_ok.mp hmembers).imp fun v m hm => ?_
    obtain ⟨text, htext, rfl⟩ := Outcome.map_eq_ok.mp hm
    rw [decide_eq_false hkind] at htext
    exact (Except.ok.inj htext).symm
  have hmembers : e.members = members := by rw [← Except.ok.inj h]
  have hfind : (∃ n, e.called? (textLiteral s) = some n) ↔
      ∃ m ∈ members, literalValue? m.2 = literalValue? (textLiteral s) := by
    unfold EnumClass.called?
    rw [hmembers, ← Option.isSome_iff_exists, Option.isSome_map, List.find?_isSome]
    simp only [decide_eq_true_eq]
  rw [hfind, List.mem_map]
  constructor
  · rintro ⟨m, hm, hvalue⟩
    obtain ⟨v, hv, htext⟩ := Outcome.exists_of_mem_forall₂ hsame hm
    exact ⟨v, hv, literalValue?_textLiteral_inj.mp (htext ▸ hvalue)⟩
  · rintro ⟨v, hv, rfl⟩
    obtain ⟨m, hm, htext⟩ := Outcome.exists_of_mem_forall₂ hsame.flip hv
    exact ⟨m, hm, htext ▸ rfl⟩

end Source

/-! ## Values for the default -/

namespace ChecksumPolicy

variable {model : Model} {p : Protocol} {op t : Shape} {policy : ChecksumPolicy} {m : Member}
  {values : List (String × Json)}

/-- Some value names an algorithm, in any case. -/
def Offers (values : List (String × Json)) (a : Algorithm) : Prop :=
  ∃ v ∈ values, Algorithm.ofName v.2.plain = .ok a

theorem ofName_eq_ok {name : String} {a : Algorithm} :
    Algorithm.ofName name = .ok a ↔ Text.lowered name = a.name := by
  refine ⟨fun h => ?_, ChecksumTransfer.ofName_of_named⟩
  unfold Algorithm.ofName at h
  split at h
  · next b hb =>
    cases h
    have hname := List.find?_some hb
    exact (of_decide_eq_true hname).symm
  · cases h

/-- The value that stands for the default among the values of an enum. -/
def valueFor (values : List (String × Json)) (a : Algorithm) : String :=
  ((values.map fun v => v.2.plain).find? fun s => Text.lowered s = a.name).getD
    (Text.uppered a.name)

/-- The value for the default names it, and it is one of the values if any of them does. -/
theorem valueFor_cases (values : List (String × Json)) (a : Algorithm) :
    Offers values a ∧ valueFor values a ∈ values.map (fun v => v.2.plain) ∧
        Algorithm.ofName (valueFor values a) = .ok a ∨
      ¬ Offers values a ∧ valueFor values a = Text.uppered a.name ∧
        Algorithm.ofName (valueFor values a) = .ok a := by
  unfold valueFor
  cases hfind : (values.map fun v => v.2.plain).find? fun s => Text.lowered s = a.name with
  | some s =>
    have hmem := List.mem_of_find?_eq_some hfind
    have hname := List.find?_some hfind
    have hnames : Algorithm.ofName s = .ok a := ofName_eq_ok.mpr (of_decide_eq_true hname)
    obtain ⟨v, hv, rfl⟩ := List.mem_map.mp hmem
    exact Or.inl ⟨⟨v, hv, hnames⟩, hmem, hnames⟩
  | none =>
    refine Or.inr ⟨?_, rfl, ?_⟩
    · rintro ⟨v, hv, hnames⟩
      exact absurd (decide_eq_true (ofName_eq_ok.mp hnames))
        (List.find?_eq_none.mp hfind _ (List.mem_map_of_mem hv))
    · cases a <;> decide

/-- The value for the default is one of the values exactly if one of them names the default. -/
theorem valueFor_mem_iff {a : Algorithm} :
    valueFor values a ∈ values.map (fun v => v.2.plain) ↔ Offers values a := by
  rcases valueFor_cases values a with ⟨hoffers, hmem, -⟩ | ⟨hoffers, -, hnames⟩
  · exact iff_of_true hmem hoffers
  · refine iff_of_false (fun hmem => hoffers ?_) hoffers
    obtain ⟨v, hv, htext⟩ := List.mem_map.mp hmem
    exact ⟨v, hv, htext ▸ hnames⟩

/-- What is sent for an unset member is the value for the default. -/
theorem defaultValue_eq_valueFor (hm : policy.requestMember = some m)
    (ht : model.targetOf m = .ok t) : policy.defaultValue model =
      (t.enumValues.mapError .missing).map (valueFor · policy.default) :=
  Source.defaultValue_eq hm ht

end ChecksumPolicy

/-! ## Modules -/

namespace Source

variable {w : Writer} {plans : List Plan} {plan : Plan} {o : ModuleOptions} {written : Module}
  {policy : ChecksumPolicy} {m : Member} {t : Shape} {c : EnumClass} {v : String}

/-- The enum of an algorithm member has its class in the module. -/
theorem standsIn_algorithm (hsound : w.model.Sound)
    (hchecked : ∀ plan ∈ plans, Plan.Checked w.model w.protocol plan)
    (hwritten : Module.ofPlans w plans o = .ok written) (hplan : plan ∈ plans)
    (hinput : plan.input.isEnum = false) (hm : m ∈ plan.input.members)
    (ht : w.model.targetOf m = .ok t) (henum : t.isEnum = true)
    (hc : EnumClass.ofShape t = .ok c) : ∀ l ∈ c.lines, StandsIn l written.text := by
  obtain ⟨enums, structs, -, hcollect, -, -, -, hclasses, -⟩ := written_of_ofPlans hwritten
  obtain ⟨enums', structs', hcollect', hmem, -⟩ := exists_collect hsound (roots_mem hchecked)
  cases hcollect.symm.trans hcollect'
  have hroot : plan.input ∈ roots plans := List.mem_flatMap.mpr ⟨plan, hplan, List.mem_cons_self⟩
  have hstep : DependsOn w.model plan.input t :=
    dependsOn_target hsound (roots_mem hchecked _ hroot) hinput hm ht
  obtain ⟨c', hc', hwrite⟩ := Outcome.exists_of_mem_mapM hclasses
    ((hmem t).mpr ⟨⟨plan.input, hroot, .single hstep⟩, henum⟩)
  cases hc.symm.trans hwrite
  exact fun l hl => standsIn_enum hc' hl

/-- The line that gives an algorithm member its default calls the class of its enum. -/
theorem standsIn_default (hwritten : Module.ofPlans w plans o = .ok written) (hplan : plan ∈ plans)
    (hpolicy : plan.checksum = some policy) (hm : policy.requestMember = some m)
    (ht : w.model.targetOf m = .ok t) (henum : t.isEnum = true)
    (hv : policy.defaultValue w.model = .ok v) :
    StandsIn ("        value = dataclasses.replace(value, " ++ fieldOf m ++ "=" ++ classOf t ++
      "(" ++ textLiteral v ++ "))") written.text := by
  have hsite : Site.operation .writeRequest plan ∈ sites plans :=
    mem_sites hplan (Site.mem_ofPlan.mpr rfl)
  have hstands := standsIn_of_moduleLine hwritten
    (.body hsite (.checksumDefault hpolicy hm ht hv))
  have hline : Line.text (.code "    " :: checksumDefaultPieces m t v) =
      "        value = dataclasses.replace(value, " ++ fieldOf m ++ "=" ++ classOf t ++ "(" ++
        textLiteral v ++ "))" := by
    unfold checksumDefaultPieces
    rw [henum]
    simp [← String.append_assoc]
  exact hline ▸ hstands

end Source

/-- Where the algorithm of a policy is sent in a member whose target is an enum, the text that is
sent by default names the policy's algorithm. It is a value of the enum exactly if one of them names
this algorithm, in any case, and exactly then a call of the enum's class with it finds a member;
otherwise it is the name in capitals. A module makes this call in either case. -/
theorem default_stored_iff {model : Model} {p : Protocol} {op t : Shape} {policy : ChecksumPolicy}
    {m : Member} (hpolicy : ChecksumPolicy.ofShape model p op = .ok (some policy))
    (hm : policy.requestMember = some m) (ht : model.targetOf m = .ok t)
    (henum : t.isEnum = true) :
    (∀ e, t.enumValues = .error e → policy.defaultValue model = .error (.missing e)) ∧
    ∀ values, t.enumValues = .ok values → ∃ v c, policy.defaultValue model = .ok v ∧
      Source.EnumClass.ofShape t = .ok c ∧ Algorithm.ofName v = .ok policy.default ∧
      (v ∈ values.map (fun x => x.2.plain) ↔ ChecksumPolicy.Offers values policy.default) ∧
      ((∃ n, c.called? (Source.textLiteral v) = some n) ↔
        ChecksumPolicy.Offers values policy.default) ∧
      (¬ ChecksumPolicy.Offers values policy.default → v = Text.uppered policy.default.name) ∧
      ∀ text loaded settings cs x out plan, Model.load text = .ok loaded →
        ServicePlan.ofModel loaded settings.service settings.protocol = .ok x →
        generate loaded settings cs = .ok out → x.model = model → x.protocol = p →
        plan ∈ x.plans → plan.operation = op →
        Source.StandsIn ("        value = dataclasses.replace(value, " ++ Source.fieldOf m ++ "=" ++
          c.name ++ "(" ++ Source.textLiteral v ++ "))") out ∧
        (plan.input.isEnum = false → ∀ l ∈ c.lines, Source.StandsIn l out) := by
  obtain ⟨input, t', hinput, hmember, ht', hstring⟩ := Source.requestMember_of_policy hpolicy hm
  cases ht.symm.trans ht'
  have hdefault := ChecksumPolicy.defaultValue_eq_valueFor hm ht
  have hkind : t.kind ≠ .intEnum := by
    intro hkind
    rw [Shape.isString, hkind] at hstring
    cases hstring
  refine ⟨fun e he => by rw [hdefault, he]; rfl, fun values hvalues => ?_⟩
  have hreadable : Source.Readable t :=
    ⟨Source.exists_enumValues_iff.mp ⟨values, hvalues⟩, fun h => absurd h hkind⟩
  obtain ⟨c, hc⟩ := Source.exists_enumClass_iff.mpr hreadable
  have hname := (Source.names_of_enumClass hc).1
  have hv : policy.defaultValue model =
      .ok (ChecksumPolicy.valueFor values policy.default) := by
    rw [hdefault, hvalues]
    rfl
  have hcases := ChecksumPolicy.valueFor_cases values policy.default
  refine ⟨_, c, hv, hc, hcases.elim (·.2.2) (·.2.2), ChecksumPolicy.valueFor_mem_iff,
    (Source.exists_called_iff hkind hvalues hc).trans ChecksumPolicy.valueFor_mem_iff,
    fun hno => (hcases.resolve_left fun h => hno h.1).2.1, ?_⟩
  rintro text loaded settings cs x out plan hload hx hgenerate rfl rfl hplan rfl
  obtain ⟨x', written, hx', hwritten, rfl⟩ := generate_eq_ok.mp hgenerate
  cases hx.symm.trans hx'
  have hchecked := checked_of_servicePlan hload hx
  have hchecksum : plan.checksum = some policy :=
    Except.ok.inj ((hchecked plan hplan).checksum.symm.trans hpolicy)
  cases hinput.symm.trans (input_of_servicePlan hload hx hplan)
  rw [hname]
  exact ⟨Source.standsIn_default hwritten hplan hchecksum hm ht henum hv, fun hrecord =>
    Source.standsIn_algorithm (sound_of_servicePlan hload hx) hchecked hwritten hplan hrecord
      hmember ht henum hc⟩

/-- An operation that takes its checksum algorithm in an enum of two values. -/
def algorithmDocument (second : String) : Json :=
  let api : Json := .map [("type", .text "service"), ("operations", .list [reference "ns#Put"])]
  let put : Json := .map [("type", .text "operation"), ("input", reference "ns#In"),
    ("traits", .map [(Trait.http, .map [("method", .text "PUT"), ("uri", .text "/")]),
      (Trait.httpChecksum, .map [("requestAlgorithmMember", .text "algorithm")])])]
  let input : Json := .map [("type", .text "structure"),
    ("members", .map [("algorithm", reference "ns#Algorithm")])]
  let algorithm : Json := .map [("type", .text "enum"), ("members", .map [
    ("SHA256", reference Model.unit), (second, reference Model.unit)])]
  .map [("shapes", .map [("ns#Api", api), ("ns#Put", put), ("ns#In", input),
    ("ns#Algorithm", algorithm)])]

/-- The text of a document is a model from which a module is generated that has an operation with a
policy, whose algorithm member leads to an enum of these values. -/
def StoresIn (text : String) (values : List String) : Prop :=
  ∃ (model : Model) (x : ServicePlan) (out : String), Model.load text = .ok model ∧
    ServicePlan.ofModel model restSettings.service restSettings.protocol = .ok x ∧
    generate model restSettings Customization.standard = .ok out ∧
    ∃ plan ∈ x.plans, plan.input.isEnum = false ∧ ∃ policy m t vs,
      ChecksumPolicy.ofShape x.model x.protocol plan.operation = .ok (some policy) ∧
      policy.requestMember = some m ∧ x.model.targetOf m = .ok t ∧ t.isEnum = true ∧
      policy.default = .crc32 ∧ t.enumValues = .ok vs ∧ vs.map (fun v => v.2.plain) = values

theorem storesIn_of_passes {second : String} {values : List String}
    (hexact : (algorithmDocument second).isExact = true)
    (hrun : Outcome.passes (fun model => Outcome.passes (fun x =>
        Outcome.passes (fun _ => true) (x.module restSettings Customization.standard) &&
          x.plans.any fun plan => !plan.input.isEnum && plan.checksum.any fun policy =>
            policy.default = .crc32 && policy.requestMember.any fun m =>
              Outcome.passes (fun t => t.isEnum &&
                Outcome.passes (fun vs => vs.map (fun v => v.2.plain) = values) t.enumValues)
                (x.model.targetOf m))
        (ServicePlan.ofModel model restSettings.service restSettings.protocol))
      (Loader.modelOf (algorithmDocument second)) = true) :
    StoresIn (algorithmDocument second).compact values := by
  obtain ⟨model, hmodel, hrun⟩ := Outcome.exists_of_passes hrun
  obtain ⟨x, hx, hrun⟩ := Outcome.exists_of_passes hrun
  obtain ⟨hwritten, hplans⟩ := Bool.and_eq_true_iff.mp hrun
  obtain ⟨written, hwritten, -⟩ := Outcome.exists_of_passes hwritten
  obtain ⟨plan, hplan, h⟩ := List.any_eq_true.mp hplans
  obtain ⟨hinput, h⟩ := Bool.and_eq_true_iff.mp h
  obtain ⟨policy, hpolicy, h⟩ := (Option.any_eq_true _ _).mp h
  obtain ⟨hdefault, h⟩ := Bool.and_eq_true_iff.mp h
  obtain ⟨m, hm, h⟩ := (Option.any_eq_true _ _).mp h
  obtain ⟨t, ht, h⟩ := Outcome.exists_of_passes h
  obtain ⟨henum, h⟩ := Bool.and_eq_true_iff.mp h
  obtain ⟨vs, hvs, h⟩ := Outcome.exists_of_passes h
  have hload := (Model.load_compact hexact).trans hmodel
  exact ⟨model, x, written.text, hload, hx, generate_eq_ok.mpr ⟨x, written, hx, hwritten, rfl⟩,
    plan, hplan, by simpa using hinput, policy, m, t, vs,
    hpolicy ▸ (checked_of_servicePlan hload hx plan hplan).checksum, hm, ht, henum,
    of_decide_eq_true hdefault, hvs, of_decide_eq_true h⟩

/-- A value in other letters than those of the name in capitals is sent as it is. -/
theorem default_in_other_letters : ∃ (model : Model) (x : ServicePlan) (out : String) (op t : Shape)
    (policy : ChecksumPolicy) (m : Member) (c : Source.EnumClass),
    Model.load (algorithmDocument "Crc32").compact = .ok model ∧
    generate model restSettings Customization.standard = .ok out ∧
    ServicePlan.ofModel model restSettings.service restSettings.protocol = .ok x ∧
    ChecksumPolicy.ofShape x.model x.protocol op = .ok (some policy) ∧
    policy.requestMember = some m ∧ x.model.targetOf m = .ok t ∧ t.isEnum = true ∧
    policy.defaultValue x.model = .ok "Crc32" ∧
    (∃ n, c.called? (Source.textLiteral "Crc32") = some n) ∧
    (∀ l ∈ c.lines, Source.StandsIn l out) ∧
    Source.StandsIn ("        value = dataclasses.replace(value, " ++ Source.fieldOf m ++ "=" ++
      c.name ++ "(" ++ Source.textLiteral "Crc32" ++ "))") out := by
  have hmodel : StoresIn (algorithmDocument "Crc32").compact ["SHA256", "Crc32"] :=
    storesIn_of_passes (by decide +kernel) (by decide +kernel)
  obtain ⟨model, x, out, hload, hx, hgenerate, plan, hplan, hinput, policy, m, t, vs, hpolicy, hm,
    ht, henum, hdefault, hvs, hvalues⟩ := hmodel
  obtain ⟨v, c, hv, -, hnames, hmem, hcalled, -, hstands⟩ :=
    (default_stored_iff hpolicy hm ht henum).2 vs hvs
  have hoffers : ChecksumPolicy.Offers vs policy.default := by
    have hlast : "Crc32" ∈ vs.map fun v => v.2.plain := hvalues ▸ by decide
    obtain ⟨y, hy, htext⟩ := List.mem_map.mp hlast
    exact ⟨y, hy, by rw [htext, hdefault]; decide⟩
  obtain rfl : v = "Crc32" := by
    have hv : v ∈ ["SHA256", "Crc32"] := hvalues ▸ hmem.mpr hoffers
    simp only [List.mem_cons, List.not_mem_nil, or_false] at hv
    refine hv.resolve_left ?_
    rintro rfl
    rw [hdefault] at hnames
    exact absurd hnames (by decide)
  obtain ⟨hline, hclass⟩ :=
    hstands _ model restSettings _ x out plan hload hx hgenerate rfl rfl hplan rfl
  exact ⟨model, x, out, plan.operation, t, policy, m, c, hload, hgenerate, hx, hpolicy, hm, ht,
    henum, hv, hcalled.mpr hoffers, hclass hinput, hline⟩

/-- The default need not be a value of the enum that it is sent in. -/
theorem not_every_default_stored : ¬ ∀ (text : String) (model : Model),
    Model.load text = .ok model → ∀ settings x out,
    ServicePlan.ofModel model settings.service settings.protocol = .ok x →
    generate model settings Customization.standard = .ok out → ∀ plan ∈ x.plans,
    ∀ (policy : ChecksumPolicy) (m : Member) (t : Shape),
      ChecksumPolicy.ofShape x.model x.protocol plan.operation = .ok (some policy) →
      policy.requestMember = some m → x.model.targetOf m = .ok t → t.isEnum = true →
      ∃ values v, t.enumValues = .ok values ∧ policy.defaultValue x.model = .ok v ∧
        v ∈ values.map fun x => x.2.plain := by
  intro h
  have hmodel : StoresIn (algorithmDocument "SHA1").compact ["SHA256", "SHA1"] :=
    storesIn_of_passes (by decide +kernel) (by decide +kernel)
  obtain ⟨model, x, out, hload, hx, hgenerate, plan, hplan, -, policy, m, t, vs, hpolicy, hm, ht,
    henum, hdefault, hvs, hvalues⟩ := hmodel
  obtain ⟨values, v, hvs', hv, hmem⟩ :=
    h _ model hload restSettings x out hx hgenerate plan hplan policy m t hpolicy hm ht henum
  cases hvs.symm.trans hvs'
  rw [ChecksumPolicy.defaultValue_eq_valueFor hm ht, hvs] at hv
  cases Except.ok.inj hv
  obtain ⟨y, hy, hnames⟩ := ChecksumPolicy.valueFor_mem_iff.mp hmem
  have hplain : y.2.plain ∈ ["SHA256", "SHA1"] := hvalues ▸ List.mem_map_of_mem hy
  rw [hdefault] at hnames
  simp only [List.mem_cons, List.not_mem_nil, or_false] at hplain
  rcases hplain with hplain | hplain
  all_goals
    rw [hplain] at hnames
    exact absurd hnames (by decide)

end Wireform
