import Mathlib.Data.List.Nodup
import Wireform.Binding.Error
import Wireform.Proofs.Json.ReadBack
import Wireform.Proofs.Outcome
import Wireform.Protocol

/-
  Wireform models: what holds of every loaded model, also behind the restriction by a protocol. Each
  id is declared once, and only the targets of enum members may be undeclared.
-/

namespace Wireform

namespace Model

variable {model : Model}

/-! ## Lookups -/

def ids (model : Model) : List String := model.shapes.map Shape.id

theorem exists_find?_iff {id : String} : (∃ s, model.find? id = some s) ↔ id ∈ model.ids := by
  rw [← Option.isSome_iff_exists]
  unfold find? ids
  simp only [List.find?_isSome, decide_eq_true_eq, List.mem_map]

theorem get_eq_ok {id : String} {s : Shape} : model.get id = .ok s ↔ model.find? id = some s := by
  unfold get
  cases model.find? id with
  | none => simp
  | some t => simp

theorem get_eq_error {id : String} {e : Missing} :
    model.get id = .error e ↔ id ∉ model.ids ∧ e = .shape id := by
  rw [← exists_find?_iff]
  unfold get
  cases model.find? id with
  | none => simp [eq_comm]
  | some t => simp

theorem exists_get {id : String} (hid : id ∈ model.ids) :
    ∃ s ∈ model.shapes, model.get id = .ok s := by
  obtain ⟨s, hs⟩ := exists_find?_iff.mpr hid
  exact ⟨s, List.mem_of_find?_eq_some hs, get_eq_ok.mpr hs⟩

theorem exists_lookup {id : String} (hid : id ∈ model.ids) :
    ∃ s ∈ model.shapes, model.lookup id = .ok s := by
  obtain ⟨s, hs, hget⟩ := exists_get hid
  exact ⟨s, hs, Outcome.mapError_eq_ok.mpr hget⟩

/-! ## Targets -/

/-- A member has a target that is not declared. -/
def Lacks (model : Model) (m : Member) : Prop := m.target ∉ model.ids

theorem targetOf_eq_error {m : Member} {e : AnalysisError} :
    model.targetOf m = .error e ↔ model.Lacks m ∧ e = .missing (.shape m.target) := by
  unfold targetOf target Lacks
  rw [Outcome.mapError_eq_error]
  simp only [get_eq_error]
  constructor
  · rintro ⟨_, ⟨hm, rfl⟩, rfl⟩
    exact ⟨hm, rfl⟩
  · rintro ⟨hm, rfl⟩
    exact ⟨_, ⟨hm, rfl⟩, rfl⟩

theorem exists_targetOf {m : Member} (hm : ¬ model.Lacks m) :
    ∃ t ∈ model.shapes, model.targetOf m = .ok t := exists_lookup (not_not.mp hm)

end Model

/-! ## Sound models -/

/-- Enums that have their values as members. -/
def ShapeKind.IsEnum (k : ShapeKind) : Prop := k = .enum ∨ k = .intEnum

/-- Kinds that hold values of one other shape. -/
def ShapeKind.Holds (k : ShapeKind) : Prop := k.isCollection = true ∨ k = .map

/-- The shapes of a model have different ids, the unit shape is one of them, and whatever holds
values has a member for them. -/
structure Model.Formed (model : Model) : Prop where
  nodup : model.ids.Nodup
  unit : Model.unit ∈ model.ids
  holding : ∀ s ∈ model.shapes, s.kind.Holds → s.members ≠ []

/-- Also, every reference that is checked leads to a shape of the model. -/
structure Model.Sound (model : Model) : Prop extends Model.Formed model where
  declared : ∀ s ∈ model.shapes, ∀ r ∈ Loader.references s, r ∈ model.ids

namespace Model.Sound

variable {model : Model} {s : Shape} {m : Member}

/-- Only an enum has members with undeclared targets. -/
theorem isEnum_of_lacks (hsound : model.Sound) (hs : s ∈ model.shapes) (hm : m ∈ s.members)
    (hlacks : model.Lacks m) : s.kind.IsEnum := by
  by_contra hkind
  refine hlacks (hsound.declared s hs _ ?_)
  unfold Loader.references
  rw [if_neg (by simpa [ShapeKind.IsEnum] using hkind)]
  simp only [List.mem_append, List.mem_map]
  exact Or.inl (Or.inl (Or.inl ⟨m, hm, rfl⟩))

/-- Whatever is not an enum leads to shapes of the model. -/
theorem exists_target (hsound : model.Sound) (hs : s ∈ model.shapes) (hkind : ¬ s.kind.IsEnum)
    (hm : m ∈ s.members) : ∃ t ∈ model.shapes, model.targetOf m = .ok t :=
  exists_targetOf fun hlacks => hkind (hsound.isEnum_of_lacks hs hm hlacks)

theorem element_mem (hsound : model.Sound) (hs : s ∈ model.shapes) (hkind : s.kind.Holds) :
    s.element ∈ s.members := by
  unfold Shape.element
  rw [List.getLastD_eq_getLast?, List.getLast?_eq_some_getLast (hsound.holding s hs hkind)]
  exact List.getLast_mem _

theorem not_isEnum_of_holds {k : ShapeKind} (h : k.Holds) : ¬ k.IsEnum := by
  unfold ShapeKind.Holds at h
  rintro (rfl | rfl)
  · exact absurd h (by decide)
  · exact absurd h (by decide)

theorem exists_element (hsound : model.Sound) (hs : s ∈ model.shapes) (hkind : s.kind.Holds) :
    ∃ t ∈ model.shapes, model.targetOf s.element = .ok t :=
  hsound.exists_target hs (not_isEnum_of_holds hkind) (hsound.element_mem hs hkind)

/-! ## Operations -/

theorem exists_message (hsound : model.Sound) (hs : s ∈ model.shapes) {r : Option String}
    (hr : r ∈ [s.input, s.output]) : ∃ t ∈ model.shapes, model.lookup (orUnit r) = .ok t := by
  refine exists_lookup ?_
  cases r with
  | none => exact hsound.unit
  | some id =>
    unfold orUnit
    dsimp only
    split
    · exact hsound.unit
    · next hid =>
      refine hsound.declared s hs id ?_
      unfold Loader.references
      simp only [List.mem_append, List.mem_filter, List.mem_filterMap]
      exact Or.inl (Or.inl (Or.inr ⟨⟨some id, hr, rfl⟩, by simpa using hid⟩))

theorem exists_input (hsound : model.Sound) (hs : s ∈ model.shapes) :
    ∃ t ∈ model.shapes, model.lookup (orUnit s.input) = .ok t :=
  hsound.exists_message hs List.mem_cons_self

theorem exists_output (hsound : model.Sound) (hs : s ∈ model.shapes) :
    ∃ t ∈ model.shapes, model.lookup (orUnit s.output) = .ok t :=
  hsound.exists_message hs (List.mem_cons_of_mem _ List.mem_cons_self)

theorem exists_errors (hsound : model.Sound) (hs : s ∈ model.shapes) :
    ∃ es, s.errors.mapM model.lookup = .ok es ∧ ∀ t ∈ es, t ∈ model.shapes := by
  refine Outcome.exists_mapM fun id hid => exists_lookup (hsound.declared s hs id ?_)
  unfold Loader.references
  exact List.mem_append_left _ (List.mem_append_right _ hid)

/-- The operations of a service of the model, or all of them, are found. -/
theorem exists_operations (hsound : model.Sound) {service : Option Shape}
    (hservice : ∀ s, service = some s → s ∈ model.shapes) :
    ∃ ops, model.operations service = .ok ops ∧ ∀ op ∈ ops, op ∈ model.shapes := by
  cases service with
  | none =>
    refine ⟨_, rfl, fun op hop => ?_⟩
    unfold ofKind at hop
    exact (List.mem_filter.mp (List.mem_mergeSort.mp hop)).1
  | some s =>
    refine Outcome.exists_mapM fun id hid => exists_get ?_
    refine hsound.declared s (hservice s rfl) id ?_
    unfold Loader.references
    exact List.mem_append_right _ hid

end Model.Sound

/-! ## Loading -/

namespace Model

variable {model : Model} {s t : Shape}

theorem mem_put (h : t ∈ (model.put s).shapes) : t = s ∨ t ∈ model.shapes := by
  unfold put at h
  split at h
  · obtain ⟨u, hu, rfl⟩ := List.mem_map.mp h
    split
    · exact Or.inl rfl
    · exact Or.inr hu
  · exact (List.mem_append.mp h).symm.imp List.mem_singleton.mp id

theorem ids_put :
    (model.put s).ids = if s.id ∈ model.ids then model.ids else model.ids ++ [s.id] := by
  have hany : model.shapes.any (·.id = s.id) = true ↔ s.id ∈ model.ids := by
    simp [ids, List.any_eq_true]
  unfold put
  by_cases hs : s.id ∈ model.ids
  · rw [if_pos (hany.mpr hs), if_pos hs]
    unfold ids
    rw [List.map_map]
    refine List.map_congr_left fun u _ => ?_
    dsimp only [Function.comp_apply]
    split
    · next hu => exact hu.symm
    · rfl
  · rw [if_neg (mt hany.mp hs), if_neg hs]
    exact List.map_append

theorem Formed.put (hformed : model.Formed) (hs : s.kind.Holds → s.members ≠ []) :
    (model.put s).Formed where
  nodup := by
    rw [ids_put]
    split
    · exact hformed.nodup
    · next hnew =>
      rw [← List.concat_eq_append]
      exact (List.nodup_concat ..).mpr ⟨hnew, hformed.nodup⟩
  unit := by
    rw [ids_put]
    split
    · exact hformed.unit
    · exact List.mem_append_left _ hformed.unit
  holding := fun t ht => by
    rcases mem_put ht with rfl | ht
    · exact hs
    · exact hformed.holding t ht

theorem formed_prelude : Formed ⟨Prelude.shapes⟩ where
  nodup := by decide +kernel
  unit := by decide +kernel
  holding := by
    unfold ShapeKind.Holds
    decide +kernel

end Model

namespace Loader

theorem holding_shapeOf {id : String} {node : Json} {s : Shape} (h : shapeOf id node = .ok s)
    (hkind : s.kind.Holds) : s.members ≠ [] := by
  obtain ⟨kind, -, h⟩ := Outcome.bind_eq_ok.mp h
  obtain ⟨members, hmembers, h⟩ := Outcome.bind_eq_ok.mp h
  obtain ⟨_, -, h⟩ := Outcome.bind_eq_ok.mp h
  obtain ⟨_, -, h⟩ := Outcome.bind_eq_ok.mp h
  cases h
  unfold membersOf at hmembers
  rcases hkind with hkind | hkind
  · rw [if_pos hkind] at hmembers
    obtain ⟨m, -, h⟩ := Outcome.bind_eq_ok.mp hmembers
    cases h
    exact List.cons_ne_nil _ _
  · subst hkind
    obtain ⟨key, -, h⟩ := Outcome.bind_eq_ok.mp hmembers
    obtain ⟨value, -, h⟩ := Outcome.bind_eq_ok.mp h
    cases h
    exact List.cons_ne_nil _ _

theorem formed_declare {model model' : Model} {entry : String × Json}
    (h : declare model entry = .ok model') (hformed : model.Formed) : model'.Formed := by
  unfold declare at h
  split at h
  · cases h
  · obtain ⟨s, hs, h⟩ := Outcome.bind_eq_ok.mp h
    cases h
    exact hformed.put (holding_shapeOf hs)

theorem formed_foldlM_declare {nodes : List (String × Json)} {model model' : Model}
    (h : nodes.foldlM declare model = .ok model') (hformed : model.Formed) : model'.Formed := by
  induction nodes generalizing model with
  | nil =>
    cases h
    exact hformed
  | cons entry nodes ih =>
    rw [List.foldlM_cons] at h
    obtain ⟨next, hnext, h⟩ := Outcome.bind_eq_ok.mp h
    exact ih h (formed_declare hnext hformed)

theorem declared_of_checkReferences {model : Model} (h : checkReferences model = .ok ())
    {s : Shape} (hs : s ∈ model.shapes) {r : String} (hr : r ∈ references s) : r ∈ model.ids := by
  have hcheck := Outcome.forM_eq_ok.mp (Outcome.forM_eq_ok.mp h s hs) r hr
  split at hcheck
  · next hfind => exact Model.exists_find?_iff.mp (Option.isSome_iff_exists.mp hfind)
  · cases hcheck

end Loader

namespace Model

/-- A document without doubles is loaded from its text. -/
theorem load_compact {j : Json} (h : j.isExact = true) : load j.compact = Loader.modelOf j := by
  unfold load
  rw [Json.ofText_compact h]

theorem load_sound {text : String} {model : Model} (h : load text = .ok model) : model.Sound := by
  unfold load at h
  split at h
  · unfold Loader.modelOf at h
    split at h
    · obtain ⟨m, hm, h⟩ := Outcome.bind_eq_ok.mp h
      obtain ⟨_, hcheck, h⟩ := Outcome.bind_eq_ok.mp h
      cases h
      exact ⟨Loader.formed_foldlM_declare hm formed_prelude,
        fun _ hs _ hr => Loader.declared_of_checkReferences hcheck hs hr⟩
    · cases h
  · cases h
  · cases h

end Model

/-! ## Restriction -/

namespace Protocol

variable {p : Protocol} {model : Model}

/-- Whether a trait of a shape of a kind can be expressed. -/
def expresses (p : Protocol) (kind : ShapeKind) (trait : String) : Bool :=
  !(kind = .operation && trait = Trait.http && !p.supportsHttp) &&
    !(kind = .blob && trait = Trait.streaming && !p.supportsStreaming)

/-- Whether a trait of a member can be expressed. -/
def expressesOnMember (p : Protocol) (trait : String) : Bool :=
  !(trait = Trait.httpLabel && !p.supportsLabels) &&
    !(trait = Trait.httpPayload && !p.supportsHttp)

/-- A member with the traits that can be expressed. -/
def expressedMember (p : Protocol) (m : Member) : Member :=
  { m with traits := m.traits.filter fun t => p.expressesOnMember t.1 }

/-- A shape with the traits and members that can be expressed. -/
def expressed (p : Protocol) (s : Shape) : Shape :=
  { s with traits := s.traits.filter fun t => p.expresses s.kind t.1,
           members := s.members.map p.expressedMember }

theorem restrictMember_eq (m : Member) : p.restrictMember m = p.expressedMember m := by
  unfold restrictMember expressedMember expressesOnMember Member.without Traits.erase
  cases p.supportsLabels <;> cases p.supportsHttp <;> simp [List.filter_filter, Bool.and_comm]

theorem restrictShape_eq (s : Shape) : p.restrictShape s = p.expressed s := by
  have hmembers : p.restrictMember = p.expressedMember := funext restrictMember_eq
  unfold restrictShape expressed expresses Shape.without Traits.erase
  rw [hmembers]
  by_cases hoperation : s.kind = .operation
  · cases p.supportsHttp <;> simp [hoperation]
  · by_cases hblob : s.kind = .blob
    · cases p.supportsStreaming <;> simp [hblob]
    · simp [hoperation, hblob]

/-- A protocol that can express everything takes nothing away. -/
theorem expressed_of_supportsAll (h : p.supportsAll = true) (s : Shape) : p.expressed s = s := by
  unfold supportsAll at h
  rw [Bool.and_eq_true, Bool.and_eq_true] at h
  obtain ⟨⟨hhttp, hlabels⟩, hstreaming⟩ := h
  have hmember : ∀ m, p.expressedMember m = m := by
    intro m
    unfold expressedMember expressesOnMember
    simp [hhttp, hlabels]
  have hmembers : s.members.map p.expressedMember = s.members := List.map_id'' hmember _
  unfold expressed expresses
  rw [hmembers]
  simp [hhttp, hstreaming]

/-- A restricted model has every shape where it stood. -/
theorem restrict_eq : p.restrict model = ⟨model.shapes.map p.expressed⟩ := by
  unfold restrict
  split
  · next h =>
    have hid : p.expressed = id := funext (expressed_of_supportsAll h)
    rw [hid, List.map_id]
  · rw [funext restrictShape_eq]

theorem expressed_expressed (s : Shape) : p.expressed (p.expressed s) = p.expressed s := by
  have hmember : ∀ m, p.expressedMember (p.expressedMember m) = p.expressedMember m := by
    intro m
    unfold expressedMember
    simp only [List.filter_filter, Bool.and_self]
  unfold expressed
  simp [List.filter_filter, hmember]

theorem references_expressed (s : Shape) :
    Loader.references (p.expressed s) = Loader.references s := by
  have htargets : (s.members.map p.expressedMember).map Member.target =
      s.members.map Member.target := by
    rw [List.map_map]
    rfl
  unfold Loader.references expressed
  simp only [htargets]

theorem ids_restrict : (p.restrict model).ids = model.ids := by
  unfold Model.ids
  rw [restrict_eq, List.map_map]
  rfl

theorem sound_restrict (hsound : model.Sound) : (p.restrict model).Sound := by
  have hids : (p.restrict model).ids = model.ids := ids_restrict
  have hmem : ∀ t ∈ (p.restrict model).shapes, ∃ s ∈ model.shapes, p.expressed s = t := by
    intro t ht
    rw [restrict_eq] at ht
    exact List.mem_map.mp ht
  refine ⟨⟨hids ▸ hsound.nodup, hids ▸ hsound.unit, fun t ht => ?_⟩, fun t ht r hr => ?_⟩
  · obtain ⟨s, hs, rfl⟩ := hmem t ht
    exact fun hkind => mt List.map_eq_nil_iff.mp (hsound.holding s hs hkind)
  · obtain ⟨s, hs, rfl⟩ := hmem t ht
    rw [references_expressed] at hr
    exact hids ▸ hsound.declared s hs r hr

end Protocol

end Wireform
