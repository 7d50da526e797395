import Wireform.Checksum.Policy
import Wireform.Proofs.Binding.Form
import Wireform.Proofs.Binding.Formats
import Wireform.Proofs.Model.Loaded
import Wireform.Proofs.Sensitivity.Marks

/-
  Wireform plans: which lookups of an analysis find nothing: those of undeclared targets, and those
  of timestamp formats that have no such name. Every other failure is the error of a binding.
-/

namespace Wireform

namespace AnalysisError

/-- An error of a binding, which is told together with those of other operations. -/
def IsBinding (e : AnalysisError) : Prop := ∃ b, e = .binding b

/-- An error of a binding that was found at a declaration. -/
def IsDeclared (e : AnalysisError) : Prop := ∃ subject fault, e = .declared subject fault

/-- No shape has the id that is looked up. -/
def IsMissing (e : AnalysisError) : Prop := ∃ id, e = .missing (.shape id)

/-- No timestamp format has the name that is looked up. -/
def IsUnknownFormat (e : AnalysisError) : Prop := ∃ shown, e = .timestampFormat shown

theorem IsDeclared.isBinding {e : AnalysisError} (h : e.IsDeclared) : e.IsBinding := by
  obtain ⟨subject, fault, rfl⟩ := h
  exact ⟨_, rfl⟩

theorem IsMissing.not_isBinding {e : AnalysisError} (h : e.IsMissing) : ¬ e.IsBinding := by
  obtain ⟨id, rfl⟩ := h
  rintro ⟨b, hb⟩
  cases hb

theorem IsUnknownFormat.not_isBinding {e : AnalysisError} (h : e.IsUnknownFormat) :
    ¬ e.IsBinding := by
  obtain ⟨shown, rfl⟩ := h
  rintro ⟨b, hb⟩
  cases hb

theorem IsMissing.not_isUnknownFormat {e : AnalysisError} (h : e.IsMissing) :
    ¬ e.IsUnknownFormat := by
  obtain ⟨id, rfl⟩ := h
  rintro ⟨shown, hshown⟩
  cases hshown

end AnalysisError

variable {model : Model}

/-! ## Walks -/

namespace Sensitivity

/-- The walks from a root come to a member: the first walk, or one that goes on from a sensitive
node of it. -/
inductive Meets (model : Model) (root : Shape) (m : Member) : Prop
  | first (hm : Walk.Comes (visitTop model) [] [.shape root] (.member m))
  | behind {t : Node} (ht : Walk.Comes (visitTop model) [] [.shape root] t)
      (hmarked : t.Marked model) (hm : Walk.Comes (visitAll model) [] [t] (.member m))

variable {root : Shape} {n : Node} {e : AnalysisError}

theorem next_eq_error (h : n.next model = .error e) :
    ∃ m, n = .member m ∧ model.Lacks m ∧ e = .missing (.shape m.target) := by
  cases n with
  | shape s => cases h
  | member m => exact ⟨m, rfl, Model.targetOf_eq_error.mp (Outcome.map_eq_error.mp h)⟩

theorem isSensitive_eq_error (h : n.isSensitive model = .error e) :
    ∃ m, n = .member m ∧ model.Lacks m ∧ e = .missing (.shape m.target) := by
  cases n with
  | shape s => cases h
  | member m =>
    change (model.isSensitive m).mapError .missing = .error e at h
    obtain ⟨e', he, rfl⟩ := Outcome.mapError_eq_error.mp h
    unfold Model.isSensitive at he
    split at he
    · cases he
    · obtain ⟨hm, rfl⟩ := Model.get_eq_error.mp (Outcome.map_eq_error.mp he)
      exact ⟨m, rfl, hm, rfl⟩

theorem visitTop_eq_error (h : visitTop model n = .error e) :
    ∃ m, n = .member m ∧ model.Lacks m ∧ e = .missing (.shape m.target) := by
  rcases Outcome.bind_eq_error.mp h with h | ⟨marked, -, h⟩
  · exact isSensitive_eq_error h
  · cases marked with
    | true => cases h
    | false => exact next_eq_error (Outcome.map_eq_error.mp h)

theorem visitAll_of_lacks {m : Member} (hm : model.Lacks m) :
    visitAll model (.member m) = .error (.missing (.shape m.target)) :=
  Outcome.map_eq_error.mpr
    (Outcome.map_eq_error.mpr (Model.targetOf_eq_error.mpr ⟨hm, rfl⟩))

/-- The first walk ends with the sensitive nodes that it comes to. -/
theorem mem_topmost_iff {tops : List Node} (h : topmost model root = .ok tops) {t : Node} :
    t ∈ tops ↔ Walk.Comes (visitTop model) [] [.shape root] t ∧ t.Marked model := by
  obtain ⟨out, hwalk, hmem⟩ := mem_topmost h
  have hrun := run_visitTop model root
  rw [hwalk] at hrun
  have hresult : ∀ r, (t, r) ∈ out → (r = true ↔ t.Marked model) := by
    intro r hr
    obtain ⟨ns, hvisit, -⟩ := hrun.visits.visited _ hr
    rw [← Node.isSensitive_eq_true, (visitTop_eq_ok hvisit).1, Except.ok.injEq]
  rw [hmem, ← hrun.mem_iff]
  constructor
  · exact fun ht => ⟨⟨true, ht⟩, (hresult true ht).mp rfl⟩
  · rintro ⟨⟨r, hr⟩, hmarked⟩
    rwa [(hresult r hr).mpr hmarked] at hr

theorem topmost_eq_error : topmost model root = .error e ↔
    ∃ n, Walk.Comes (visitTop model) [] [.shape root] n ∧ visitTop model n = .error e := by
  rw [← (run_visitTop model root).eq_error_iff]
  exact Outcome.map_eq_error

theorem membersFrom_eq_error {start : Node} : membersFrom model start = .error e ↔
    ∃ n, Walk.Comes (visitAll model) [] [start] n ∧ visitAll model n = .error e := by
  rw [← (run_visitAll model start).eq_error_iff]
  exact Outcome.map_eq_error

/-- The walks fail only at members with undeclared targets. -/
theorem meets_of_memberIds_eq_error (h : memberIds model root = .error e) :
    ∃ m, Meets model root m ∧ model.Lacks m ∧ e = .missing (.shape m.target) := by
  rcases Outcome.bind_eq_error.mp h with h | ⟨tops, htops, h⟩
  · obtain ⟨n, hn, hvisit⟩ := topmost_eq_error.mp h
    obtain ⟨m, rfl, hm⟩ := visitTop_eq_error hvisit
    exact ⟨m, .first hn, hm⟩
  · obtain ⟨_, t, _, rfl, -, hfrom⟩ := Outcome.mapM_eq_error.mp (Outcome.map_eq_error.mp h)
    obtain ⟨ht, hmarked⟩ := (mem_topmost_iff htops).mp
      (List.mem_append_right _ List.mem_cons_self)
    obtain ⟨n, hn, hvisit⟩ := membersFrom_eq_error.mp hfrom
    obtain ⟨m, rfl, hm⟩ := next_eq_error (Outcome.map_eq_error.mp hvisit)
    exact ⟨m, .behind ht hmarked hn, hm⟩

/-- Walks that end well come to no member with an undeclared target. -/
theorem not_lacks_of_meets {ids : List String} (h : memberIds model root = .ok ids) {m : Member}
    (hm : Meets model root m) : ¬ model.Lacks m := by
  intro hlacks
  obtain ⟨tops, htops, h⟩ := Outcome.bind_eq_ok.mp h
  obtain ⟨below, hbelow, -⟩ := Outcome.bind_eq_ok.mp h
  -- a sensitive node whose walk comes to the member would end it with an error
  have hno : ∀ t, Walk.Comes (visitTop model) [] [.shape root] t → t.Marked model →
      ¬ Walk.Comes (visitAll model) [] [t] (.member m) := by
    intro t ht hmarked hcomes
    obtain ⟨ids, -, hids⟩ :=
      Outcome.exists_of_mem_mapM hbelow ((mem_topmost_iff htops).mpr ⟨ht, hmarked⟩)
    rw [membersFrom_eq_error.mpr ⟨_, hcomes, visitAll_of_lacks hlacks⟩] at hids
    cases hids
  cases hm with
  | behind ht hmarked hm => exact hno _ ht hmarked hm
  | first hm =>
    refine hno _ hm ?_ (.here [] List.not_mem_nil)
    cases hvisit : visitTop model (.member m) with
    | error e =>
      rw [topmost_eq_error.mpr ⟨_, hm, hvisit⟩] at htops
      cases htops
    | ok x =>
      obtain ⟨hmarked, ⟨hr, -⟩ | ⟨-, hnext⟩⟩ := visitTop_eq_ok hvisit
      · exact Node.isSensitive_eq_true.mp (hr ▸ hmarked)
      · have hvisit := visitAll_of_lacks hlacks
        unfold visitAll at hvisit
        rw [hnext] at hvisit
        cases hvisit

/-- The walks fail exactly when they come to a member with an undeclared target. -/
theorem exists_memberIds_eq_error :
    (∃ e, memberIds model root = .error e ∧ e.IsMissing) ↔
      ∃ m, Meets model root m ∧ model.Lacks m := by
  constructor
  · rintro ⟨e, h, -⟩
    obtain ⟨m, hm, hlacks, -⟩ := meets_of_memberIds_eq_error h
    exact ⟨m, hm, hlacks⟩
  · rintro ⟨m, hm, hlacks⟩
    cases h : memberIds model root with
    | ok ids => exact absurd hlacks (not_lacks_of_meets h hm)
    | error e =>
      obtain ⟨k, -, -, he⟩ := meets_of_memberIds_eq_error h
      exact ⟨e, rfl, k.target, he⟩

end Sensitivity

/-! ## Bindings -/

namespace Binding

variable {direction : Direction} {uri : Option Pattern} {m : Member} {e : AnalysisError}

/-- A member carries exactly one of the traits that bind. -/
def IsBound (m : Member) : Prop := ∃ t, traitsOf m = [t]

/-- Binding a member fails with the error of a declaration, or at its undeclared target. -/
theorem ofMember_eq_error (h : ofMember model direction uri m = .error e) :
    e.IsDeclared ∨ (IsBound m ∧ model.Lacks m) ∧ e = .missing (.shape m.target) := by
  unfold ofMember at h
  split at h
  · cases h
  · next t l htraits =>
    rcases Outcome.bind_eq_error.mp h with h | ⟨target, -, h⟩
    · obtain ⟨hlacks, he⟩ := Model.targetOf_eq_error.mp h
      exact Or.inr ⟨⟨⟨(t, l), htraits⟩, hlacks⟩, he⟩
    · split at h
      · cases h
      · obtain ⟨fault, -, rfl⟩ := Outcome.mapError_eq_error.mp h
        exact Or.inl ⟨m.id, fault, rfl⟩
  · cases h
    exact Or.inl ⟨m.id, _, rfl⟩

theorem ofMember_of_lacks (hbound : IsBound m) (hlacks : model.Lacks m) :
    ofMember model direction uri m = .error (.missing (.shape m.target)) := by
  obtain ⟨⟨trait, location⟩, htraits⟩ := hbound
  unfold ofMember
  rw [htraits, Model.targetOf_eq_error.mpr ⟨hlacks, rfl⟩]
  rfl

theorem exists_ofMember_eq_error :
    (∃ e, ofMember model direction uri m = .error e ∧ e.IsMissing) ↔
      IsBound m ∧ model.Lacks m := by
  constructor
  · rintro ⟨e, h, hmissing⟩
    rcases ofMember_eq_error h with hdeclared | ⟨hm, -⟩
    · exact absurd hdeclared.isBinding hmissing.not_isBinding
    · exact hm
  · exact fun ⟨hbound, hlacks⟩ => ⟨_, ofMember_of_lacks hbound hlacks, _, rfl⟩

/-- Binding a message fails where binding a member does, or because of all its members together. -/
theorem classify_eq_error {s : Shape} (h : classify model direction uri s = .error e) :
    e.IsDeclared ∨ s.members.mapM (ofMember model direction uri) = .error e := by
  rcases Outcome.bind_eq_error.mp h with h | ⟨bs, -, h⟩
  · exact Or.inr h
  · split at h
    · cases h
      exact Or.inl ⟨s.id, _, rfl⟩
    · cases h

theorem exists_classify_eq_error {s : Shape} :
    (∃ e, classify model direction uri s = .error e ∧ e.IsMissing) ↔
      Outcome.FirstFault (ofMember model direction uri) (fun m => IsBound m ∧ model.Lacks m)
        s.members := by
  have hmembers : (∃ e, classify model direction uri s = .error e ∧ e.IsMissing) ↔
      ∃ e, s.members.mapM (ofMember model direction uri) = .error e ∧ e.IsMissing := by
    refine exists_congr fun e => and_congr_left fun hmissing => ⟨fun h => ?_, fun h => ?_⟩
    · exact (classify_eq_error h).resolve_left fun hd => hmissing.not_isBinding hd.isBinding
    · exact Outcome.bind_eq_error.mpr (Or.inl h)
  rw [hmembers, Outcome.exists_mapM_eq_error]
  exact Outcome.firstFault_congr (fun _ => Iff.rfl) fun _ => exists_ofMember_eq_error

/-- Binding a message fails with the error of a declaration, or at an undeclared target. -/
theorem classify_failure {s : Shape} (h : classify model direction uri s = .error e) :
    e.IsDeclared ∨ ∃ m ∈ s.members, model.Lacks m ∧ e = .missing (.shape m.target) := by
  rcases classify_eq_error h with hd | h
  · exact Or.inl hd
  · obtain ⟨before, m, after, hsplit, -, hm⟩ := Outcome.mapM_eq_error.mp h
    refine (ofMember_eq_error hm).imp_right fun ⟨⟨_, hlacks⟩, he⟩ => ⟨m, ?_, hlacks, he⟩
    exact hsplit ▸ List.mem_append_right _ List.mem_cons_self

end Binding

/-! ## Checksum policies -/

namespace ChecksumPolicy

/-- The member of the input that plays a role in the checksum policy has an undeclared target. -/
def Misses (model : Model) (op : Shape) (trait : Json) (role : String) (m : Member) : Prop :=
  ∃ name input, (trait.get? role).bind Json.asText? = some name ∧
    model.lookup (Model.orUnit op.input) = .ok input ∧ input.member? name = some m ∧ model.Lacks m

/-- The validation member has an undeclared target, or the algorithm member has one and everything
that the policy says before it can be used. -/
def Strays (model : Model) (op : Shape) (m : Member) : Prop :=
  ∃ trait responses, op.traits.get? Trait.httpChecksum = some trait ∧
    responsesOf op trait = .ok responses ∧
    (Misses model op trait "requestValidationModeMember" m ∨
      (∃ validation, inputMember model op trait "requestValidationModeMember" = .ok validation ∧
        (responses = [] ∨ validation.isSome = true)) ∧
      Misses model op trait "requestAlgorithmMember" m)

variable {p : Protocol} {op : Shape} {trait : Json} {role : String} {m : Member}
  {e : AnalysisError}

theorem inputMember_eq_error {input : Shape}
    (hinput : model.lookup (Model.orUnit op.input) = .ok input)
    (h : inputMember model op trait role = .error e) :
    e.IsBinding ∨ ∃ m, Misses model op trait role m ∧ e = .missing (.shape m.target) := by
  unfold inputMember at h
  split at h
  · cases h
  · next name hname =>
    obtain herror | ⟨input', hinput', h⟩ := Outcome.bind_eq_error.mp h
    · rw [hinput] at herror
      cases herror
    · split at h
      · cases h
        exact Or.inl ⟨_, rfl⟩
      · next m hm =>
        obtain htarget | ⟨target, -, h⟩ := Outcome.bind_eq_error.mp h
        · obtain ⟨hlacks, rfl⟩ := Model.targetOf_eq_error.mp htarget
          exact Or.inr ⟨m, ⟨name, input', hname, hinput', hm, hlacks⟩, rfl⟩
        · split at h
          · cases h
            exact Or.inl ⟨_, rfl⟩
          · cases h

theorem inputMember_of_misses (h : Misses model op trait role m) :
    inputMember model op trait role = .error (.missing (.shape m.target)) := by
  obtain ⟨name, input, hname, hinput, hm, hlacks⟩ := h
  unfold inputMember
  rw [hname]
  refine Outcome.bind_eq_error.mpr (Or.inr ⟨input, hinput, ?_⟩)
  rw [hm]
  exact Outcome.bind_eq_error.mpr (Or.inl (Model.targetOf_eq_error.mpr ⟨hlacks, rfl⟩))

theorem responsesOf_eq_error (h : responsesOf op trait = .error e) : e.IsBinding := by
  obtain ⟨_, j, _, -, -, hj⟩ := Outcome.mapM_eq_error.mp h
  obtain ⟨fault, -, rfl⟩ := Outcome.mapError_eq_error.mp hj
  exact ⟨_, rfl⟩

theorem not_needed_iff {responses : List Algorithm} {validation : Option Member} :
    ¬ (!responses.isEmpty && validation.isNone) = true ↔
      responses = [] ∨ validation.isSome = true := by
  cases responses <;> cases validation <;> simp

/-- Where the default algorithm is known, a policy fails with the error of a binding, or at an
undeclared target. -/
theorem ofShape_eq_error {input : Shape}
    (hinput : model.lookup (Model.orUnit op.input) = .ok input)
    (hdefault : ∃ a, Algorithm.ofName p.checksum = .ok a)
    (h : ofShape model p op = .error e) :
    e.IsBinding ∨ ∃ m, Strays model op m ∧ e = .missing (.shape m.target) := by
  unfold ofShape at h
  split at h
  · cases h
  · next trait htrait =>
    obtain hfail | ⟨responses, hresponses, h⟩ := Outcome.bind_eq_error.mp h
    · exact Or.inl (responsesOf_eq_error hfail)
    obtain hfail | ⟨validation, hvalidation, h⟩ := Outcome.bind_eq_error.mp h
    · refine (inputMember_eq_error hinput hfail).imp_right fun ⟨m, hmisses, he⟩ => ⟨m, ?_, he⟩
      exact ⟨trait, responses, htrait, hresponses, Or.inl hmisses⟩
    split at h
    · cases h
      exact Or.inl ⟨_, rfl⟩
    · next hneeded =>
      obtain hfail | ⟨default, -, h⟩ := Outcome.bind_eq_error.mp h
      · obtain ⟨a, ha⟩ := hdefault
        rw [ha] at hfail
        cases hfail
      obtain hfail | ⟨request, -, h⟩ := Outcome.bind_eq_error.mp h
      · refine (inputMember_eq_error hinput hfail).imp_right fun ⟨m, hmisses, he⟩ => ⟨m, ?_, he⟩
        exact ⟨trait, responses, htrait, hresponses,
          Or.inr ⟨⟨validation, hvalidation, not_needed_iff.mp hneeded⟩, hmisses⟩⟩
      · cases h

theorem ofShape_of_strays (hdefault : ∃ a, Algorithm.ofName p.checksum = .ok a)
    (h : Strays model op m) : ofShape model p op = .error (.missing (.shape m.target)) := by
  obtain ⟨trait, responses, htrait, hresponses, hmisses⟩ := h
  unfold ofShape
  rw [htrait]
  refine Outcome.bind_eq_error.mpr (Or.inr ⟨responses, hresponses, ?_⟩)
  rcases hmisses with hmisses | ⟨⟨validation, hvalidation, hneeded⟩, hmisses⟩
  · exact Outcome.bind_eq_error.mpr (Or.inl (inputMember_of_misses hmisses))
  · obtain ⟨a, ha⟩ := hdefault
    refine Outcome.bind_eq_error.mpr (Or.inr ⟨validation, hvalidation, ?_⟩)
    rw [if_neg (not_needed_iff.mpr hneeded)]
    refine Outcome.bind_eq_error.mpr (Or.inr ⟨a, Outcome.mapError_eq_ok.mpr ha, ?_⟩)
    exact Outcome.bind_eq_error.mpr (Or.inl (inputMember_of_misses hmisses))

theorem exists_ofShape_eq_error {input : Shape}
    (hinput : model.lookup (Model.orUnit op.input) = .ok input)
    (hdefault : ∃ a, Algorithm.ofName p.checksum = .ok a) :
    (∃ e, ofShape model p op = .error e ∧ e.IsMissing) ↔ ∃ m, Strays model op m := by
  constructor
  · rintro ⟨e, h, hmissing⟩
    rcases ofShape_eq_error hinput hdefault h with hbinding | ⟨m, hstrays, -⟩
    · exact absurd hbinding hmissing.not_isBinding
    · exact ⟨m, hstrays⟩
  · exact fun ⟨m, h⟩ => ⟨_, ofShape_of_strays hdefault h, m.target, rfl⟩

theorem Strays.mem_input {input : Shape} (h : Strays model op m)
    (hinput : model.lookup (Model.orUnit op.input) = .ok input) :
    m ∈ input.members ∧ model.Lacks m := by
  obtain ⟨trait, responses, -, -, hmisses⟩ := h
  obtain ⟨role, hmisses⟩ : ∃ role, Misses model op trait role m :=
    hmisses.elim (fun h => ⟨_, h⟩) fun h => ⟨_, h.2⟩
  obtain ⟨name, input', -, hinput', hm, hlacks⟩ := hmisses
  obtain rfl : input = input' := Except.ok.inj (hinput ▸ hinput')
  exact ⟨List.mem_of_find?_eq_some hm, hlacks⟩

end ChecksumPolicy

/-! ## Formats -/

namespace Format

/-- A document that names no timestamp format. -/
def Unknown (j : Json) : Prop := j.asText?.bind TimestampFormat.ofName? = none

/-- A timestamp is bound at a location, and the strongest trait that asks for its format names
none. -/
def Misnames (model : Model) (l : Location) (m : Member) : Prop :=
  (∃ elementMember element collection,
    elementOf model l m = .ok (elementMember, element, collection) ∧
      ¬ (collection && l = .label) = true ∧ element.kind = .timestamp) ∧
  ∃ sources j, formatSources model m = .ok sources ∧ sources.findSome? formatTrait? = some j ∧
    Unknown j

variable {p : Protocol} {l : Location} {m elementMember : Member} {t element : Shape}
  {e : AnalysisError}

theorem formatOf_eq_error {j : Json} :
    formatOf j = .error e ↔ Unknown j ∧ e = .timestampFormat j.display := by
  unfold formatOf Unknown
  cases j.asText?.bind TimestampFormat.ofName? with
  | none => simp [eq_comm]
  | some f => simp

theorem exists_formatSources (hsound : model.Sound) (ht : model.targetOf m = .ok t)
    (hmem : t ∈ model.shapes) : ∃ sources, formatSources model m = .ok sources := by
  rw [← Outcome.failsOnly_false]
  refine .bind (Outcome.failsOnly_of_eq_ok ht) fun t' ht' => ?_
  obtain rfl : t = t' := Except.ok.inj (ht ▸ ht')
  split
  · next hkind =>
    obtain ⟨u, -, hu⟩ := hsound.exists_element hmem (Or.inl hkind)
    exact .bind (Outcome.failsOnly_of_eq_ok hu) fun _ _ => Outcome.failsOnly_ok _
  · exact Outcome.failsOnly_ok _

theorem failsOnly_valueMember (ht : model.targetOf m = .ok t) :
    Outcome.FailsOnly AnalysisError.IsBinding (valueMember model l m) := by
  unfold valueMember
  split
  · refine .bind (Outcome.failsOnly_of_eq_ok ht) fun t' _ => ?_
    split
    · exact Outcome.failsOnly_error ⟨_, rfl⟩
    · exact Outcome.failsOnly_ok _
  · exact Outcome.failsOnly_ok _

/-- The value at a location has a target if the member bound there has one. -/
theorem exists_target_valueMember (hsound : model.Sound) (ht : model.targetOf m = .ok t)
    (hmem : t ∈ model.shapes) {v : Member} (h : valueMember model l m = .ok v) :
    ∃ u ∈ model.shapes, model.targetOf v = .ok u := by
  unfold valueMember at h
  split at h
  · obtain ⟨t', ht', h⟩ := Outcome.bind_eq_ok.mp h
    obtain rfl : t = t' := Except.ok.inj (ht ▸ ht')
    split at h
    · cases h
    · next hkind =>
      cases h
      exact hsound.exists_element hmem (Or.inr (not_not.mp hkind))
  · cases h
    exact ⟨t, hmem, ht⟩

theorem failsOnly_elementOf (hsound : model.Sound) (ht : model.targetOf m = .ok t)
    (hmem : t ∈ model.shapes) : Outcome.FailsOnly AnalysisError.IsBinding (elementOf model l m) := by
  refine .bind (failsOnly_valueMember ht) fun v hv => ?_
  obtain ⟨u, hu, htarget⟩ := exists_target_valueMember hsound ht hmem hv
  refine .bind (Outcome.failsOnly_of_eq_ok htarget) fun u' hu' => ?_
  obtain rfl : u = u' := Except.ok.inj (htarget ▸ hu')
  split
  · exact Outcome.failsOnly_ok _
  · next hkind =>
    obtain ⟨w, -, hw⟩ := hsound.exists_element hu (Or.inl (by simpa using hkind))
    refine .bind (Outcome.failsOnly_of_eq_ok hw) fun w' _ => ?_
    split
    · exact Outcome.failsOnly_error ⟨_, rfl⟩
    · exact Outcome.failsOnly_ok _

theorem timestampAt_eq_error (hsound : model.Sound) (ht : model.targetOf m = .ok t)
    (hmem : t ∈ model.shapes) : timestampAt model p l m = .error e ↔
      ∃ sources j, formatSources model m = .ok sources ∧
        sources.findSome? formatTrait? = some j ∧ Unknown j ∧ e = .timestampFormat j.display := by
  obtain ⟨sources, hsources⟩ := exists_formatSources hsound ht hmem
  unfold timestampAt
  rw [Outcome.bind_eq_error, hsources]
  simp only [reduceCtorEq, false_or, Except.ok.injEq, exists_and_left, exists_eq_left']
  cases sources.findSome? formatTrait? with
  | none => simp [pure, Except.pure]
  | some j => simp [formatOf_eq_error]

theorem failsOnly_transformOf (hkind : element.kind ≠ .timestamp) :
    Outcome.FailsOnly AnalysisError.IsBinding
      (transformOf model p l m elementMember element) := by
  unfold transformOf
  split
  · exact Outcome.failsOnly_ok _
  · split
    · exact Outcome.failsOnly_ok _
    · split
      · exact Outcome.failsOnly_ok _
      · split
        · exact Outcome.failsOnly_ok _
        · exact Outcome.failsOnly_error ⟨_, rfl⟩

/-- A format fails with the error of a binding, or where a timestamp's format has no name. -/
theorem rule_eq_error (hsound : model.Sound) (ht : model.targetOf m = .ok t)
    (hmem : t ∈ model.shapes) (h : rule model p l m = .error e) :
    e.IsBinding ∨ Misnames model l m ∧ e.IsUnknownFormat := by
  unfold rule at h
  split at h
  · cases h
    exact Or.inl ⟨_, rfl⟩
  · obtain hfail | ⟨⟨elementMember, element, collection⟩, helement, h⟩ :=
      Outcome.bind_eq_error.mp h
    · exact Or.inl (failsOnly_elementOf hsound ht hmem e hfail)
    · dsimp only at h
      split at h
      · cases h
        exact Or.inl ⟨_, rfl⟩
      · next hlabel =>
        have hfail := Outcome.map_eq_error.mp h
        by_cases hkind : element.kind = .timestamp
        · rw [transformOf_timestamp hkind, Outcome.map_eq_error,
            timestampAt_eq_error hsound ht hmem] at hfail
          obtain ⟨sources, j, hsources, hj, hunknown, rfl⟩ := hfail
          exact Or.inr ⟨⟨⟨elementMember, element, collection, helement, hlabel, hkind⟩,
            sources, j, hsources, hj, hunknown⟩, _, rfl⟩
        · exact Or.inl (failsOnly_transformOf hkind e hfail)

theorem exists_rule_eq_error (hsound : model.Sound) (ht : model.targetOf m = .ok t)
    (hmem : t ∈ model.shapes) (hl : l.isText = true) :
    (∃ e, rule model p l m = .error e ∧ e.IsUnknownFormat) ↔ Misnames model l m := by
  constructor
  · rintro ⟨e, h, hunknown⟩
    rcases rule_eq_error hsound ht hmem h with hbinding | ⟨hmisnames, -⟩
    · exact absurd hbinding hunknown.not_isBinding
    · exact hmisnames
  · rintro ⟨⟨elementMember, element, collection, helement, hlabel, hkind⟩,
      sources, j, hsources, hj, hunknown⟩
    refine ⟨_, ?_, j.display, rfl⟩
    unfold rule
    rw [if_neg (by simpa using hl)]
    refine Outcome.bind_eq_error.mpr (Or.inr ⟨_, helement, ?_⟩)
    dsimp only
    rw [if_neg hlabel]
    refine Outcome.map_eq_error.mpr ?_
    rw [transformOf_timestamp hkind, Outcome.map_eq_error, timestampAt_eq_error hsound ht hmem]
    exact ⟨sources, j, hsources, hj, hunknown, rfl⟩

end Format

end Wireform
