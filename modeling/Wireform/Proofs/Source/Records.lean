import Wireform.Proofs.Plan.Lookups
import Wireform.Proofs.Source.Hints
import Wireform.Source.Message
import Wireform.Source.Record

/-
  Wireform source text: which enums and data classes can be written. A field needs a hint that fits
  on the stack, and a timestamp a format that has a name; an enum needs values that can be read.
-/

namespace Wireform.Source

variable {model : Model} {p : Protocol} {defined : List String} {m : Member} {s t : Shape}
  {e : GenerateError}

/-- The faults of values that cannot be read. -/
inductive Unreadable : GenerateError → Prop
  | number (e : WholeFault) : Unreadable (.number e)
  | key (name : String) : Unreadable (.plan (.analysis (.missing (.key name))))

/-- The faults that can stop the writing of a module. -/
inductive Fault : GenerateError → Prop
  | tooDeep : Fault .tooDeep
  | noHint (kind : ShapeKind) : Fault (.noHint kind)
  | format (shown : String) : Fault (.plan (.analysis (.timestampFormat shown)))
  | unreadable {e : GenerateError} (h : Unreadable e) : Fault e

theorem lift_eq_ok {α : Type} {x : Except AnalysisError α} {a : α} :
    GenerateError.lift x = .ok a ↔ x = .ok a := Outcome.mapError_eq_ok

theorem lift_eq_error {α : Type} {x : Except AnalysisError α} :
    GenerateError.lift x = .error e ↔ ∃ e', x = .error e' ∧ .plan (.analysis e') = e :=
  Outcome.mapError_eq_error

theorem failsOnly_lift {α : Type} {bad : GenerateError → Prop} {x : Except AnalysisError α} {a : α}
    (h : x = .ok a) : Outcome.FailsOnly bad (GenerateError.lift x) :=
  Outcome.failsOnly_of_eq_ok (lift_eq_ok.mpr h)

/-! ## Fields -/

/-- A timestamp's format has a name if a trait asks for one. -/
def HasFormat (m : Member) (t : Shape) : Prop :=
  t.kind = .timestamp → ∀ j,
    (Format.formatTrait? m.traits).or (Format.formatTrait? t.traits) = some j → ¬ Format.Unknown j

/-- The member of a data class has a field. -/
def HasField (model : Model) (m : Member) : Prop :=
  ∃ t, model.targetOf m = .ok t ∧ model.Hinted TypeHint.stackRoom t ∧ HasFormat m t

theorem fieldFormat_eq_error {e : AnalysisError} : fieldFormat p m t = .error e ↔
    ∃ j, (Format.formatTrait? m.traits).or (Format.formatTrait? t.traits) = some j ∧
      Format.Unknown j ∧ e = .timestampFormat j.display := by
  unfold fieldFormat
  cases (Format.formatTrait? m.traits).or (Format.formatTrait? t.traits) with
  | none => simp
  | some j => simp [Format.formatOf_eq_error]

theorem fieldConfig_eq_error {e : AnalysisError} (ht : model.targetOf m = .ok t) :
    fieldConfig model p m = .error e ↔ t.kind = .timestamp ∧ fieldFormat p m t = .error e := by
  unfold fieldConfig
  rw [ht]
  dsimp only [bind, Except.bind]
  by_cases hkind : t.kind = .timestamp
  · rw [if_pos hkind, and_iff_right hkind]
    cases fieldFormat p m t with
    | error e' => simp
    | ok f => exact iff_of_false (fun h => by cases h) fun h => by cases h
  · rw [if_neg hkind]
    refine iff_of_false (fun h => ?_) fun h => hkind h.1
    split at h
    all_goals cases h

theorem exists_fieldConfig_iff (ht : model.targetOf m = .ok t) :
    (∃ c, fieldConfig model p m = .ok c) ↔ HasFormat m t := by
  rw [← Outcome.failsOnly_false]
  unfold Outcome.FailsOnly HasFormat
  simp only [fieldConfig_eq_error ht, fieldFormat_eq_error]
  constructor
  · exact fun h hkind j hj hunknown => h _ ⟨hkind, j, hj, hunknown, rfl⟩
  · rintro h e ⟨hkind, j, hj, hunknown, -⟩
    exact h hkind j hj hunknown

theorem failsOnly_fieldConfig (ht : model.targetOf m = .ok t) :
    Outcome.FailsOnly (fun e => ∃ shown, e = .timestampFormat shown) (fieldConfig model p m) := by
  intro e he
  obtain ⟨-, hformat⟩ := (fieldConfig_eq_error ht).mp he
  obtain ⟨j, -, -, rfl⟩ := fieldFormat_eq_error.mp hformat
  exact ⟨_, rfl⟩

/-- A field is its hint and then its configuration. -/
theorem ofMember_eq (ht : model.targetOf m = .ok t) :
    Field.ofMember model p defined m = do
      let hint ← TypeHint.ofShape model (some defined) t
      let config ← GenerateError.lift (fieldConfig model p m)
      return ⟨fieldOf m, hint, config⟩ := by
  unfold Field.ofMember
  rw [ht]
  rfl

theorem exists_ofMember_iff (hsound : model.Sound) (hmem : t ∈ model.shapes)
    (ht : model.targetOf m = .ok t) :
    (∃ f, Field.ofMember model p defined m = .ok f) ↔ HasField model m := by
  rw [ofMember_eq ht]
  constructor
  · rintro ⟨f, h⟩
    obtain ⟨hint, hhint, h⟩ := Outcome.bind_eq_ok.mp h
    obtain ⟨config, hconfig, -⟩ := Outcome.bind_eq_ok.mp h
    exact ⟨t, ht, (TypeHint.exists_ofShapeWithin_iff hsound hmem).mp ⟨hint, hhint⟩,
      (exists_fieldConfig_iff ht).mp ⟨config, lift_eq_ok.mp hconfig⟩⟩
  · rintro ⟨t', ht', hhinted, hformat⟩
    obtain rfl : t = t' := Except.ok.inj (ht ▸ ht')
    obtain ⟨hint, hhint⟩ := (TypeHint.exists_ofShapeWithin_iff hsound hmem).mpr hhinted
    obtain ⟨config, hconfig⟩ := (exists_fieldConfig_iff (p := p) ht).mpr hformat
    exact ⟨_, Outcome.bind_eq_ok.mpr ⟨hint, hhint,
      Outcome.bind_eq_ok.mpr ⟨config, lift_eq_ok.mpr hconfig, rfl⟩⟩⟩

theorem failsOnly_ofMember (hsound : model.Sound) (hmem : t ∈ model.shapes)
    (ht : model.targetOf m = .ok t) :
    Outcome.FailsOnly Fault (Field.ofMember model p defined m) := by
  rw [ofMember_eq ht]
  refine .bind ?_ fun hint _ => .bind ?_ fun _ _ => Outcome.failsOnly_ok _
  · refine (TypeHint.failsOnly_ofShapeWithin hsound hmem).imp ?_
    rintro e (rfl | ⟨k, rfl⟩)
    · exact .tooDeep
    · exact .noHint k
  · intro e he
    obtain ⟨e', he', rfl⟩ := lift_eq_error.mp he
    obtain ⟨shown, rfl⟩ := failsOnly_fieldConfig ht e' he'
    exact .format shown

/-! ## Data classes -/

/-- A structure or union of the model. -/
def IsRecord (model : Model) (s : Shape) : Prop :=
  s ∈ model.shapes ∧ s.kind.isAggregate = true

theorem IsRecord.exists_target (hsound : model.Sound) (hs : IsRecord model s)
    (hm : m ∈ s.members) : ∃ t ∈ model.shapes, model.targetOf m = .ok t := by
  refine hsound.exists_target hs.1 ?_ hm
  rintro (hkind | hkind)
  · exact absurd (hkind ▸ hs.2) (by decide)
  · exact absurd (hkind ▸ hs.2) (by decide)

theorem exists_dataClass_iff (hsound : model.Sound) (hs : IsRecord model s) :
    (∃ c, DataClass.ofShape model p defined s = .ok c) ↔ ∀ m ∈ s.members, HasField model m := by
  have hfields : (∃ c, DataClass.ofShape model p defined s = .ok c) ↔
      ∃ fs, s.members.mapM (Field.ofMember model p defined) = .ok fs := Outcome.exists_map_eq_ok
  rw [hfields, Outcome.exists_mapM_eq_ok]
  refine forall₂_congr fun m hm => ?_
  obtain ⟨t, hmem, ht⟩ := hs.exists_target hsound hm
  exact exists_ofMember_iff hsound hmem ht

theorem exists_dataClasses_iff (hsound : model.Sound) {structs : List Shape}
    (hstructs : ∀ s ∈ structs, IsRecord model s) :
    (∃ cs, dataClasses model p defined structs = .ok cs) ↔
      ∀ s ∈ structs, ∀ m ∈ s.members, HasField model m := by
  induction structs generalizing defined with
  | nil => exact iff_of_true ⟨[], rfl⟩ fun _ hs => absurd hs List.not_mem_nil
  | cons s structs ih =>
    obtain ⟨hs, hrest⟩ := List.forall_mem_cons.mp hstructs
    rw [List.forall_mem_cons]
    constructor
    · rintro ⟨cs, h⟩
      obtain ⟨c, hc, h⟩ := Outcome.bind_eq_ok.mp h
      obtain ⟨below, hbelow, -⟩ := Outcome.bind_eq_ok.mp h
      exact ⟨(exists_dataClass_iff hsound hs).mp ⟨c, hc⟩, (ih hrest).mp ⟨below, hbelow⟩⟩
    · rintro ⟨hself, hall⟩
      obtain ⟨c, hc⟩ := (exists_dataClass_iff hsound hs).mpr hself
      obtain ⟨below, hbelow⟩ := (ih hrest).mpr hall
      exact ⟨_, Outcome.bind_eq_ok.mpr ⟨c, hc, Outcome.bind_eq_ok.mpr ⟨below, hbelow, rfl⟩⟩⟩

theorem failsOnly_dataClasses (hsound : model.Sound) {structs : List Shape}
    (hstructs : ∀ s ∈ structs, IsRecord model s) :
    Outcome.FailsOnly Fault (dataClasses model p defined structs) := by
  induction structs generalizing defined with
  | nil => exact Outcome.failsOnly_ok []
  | cons s structs ih =>
    obtain ⟨hs, hrest⟩ := List.forall_mem_cons.mp hstructs
    refine .bind (.bind (.mapM fun m hm => ?_) fun _ _ => Outcome.failsOnly_ok _) fun _ _ =>
      .bind (ih hrest) fun _ _ => Outcome.failsOnly_ok _
    obtain ⟨t, hmem, ht⟩ := hs.exists_target hsound hm
    exact failsOnly_ofMember hsound hmem ht

/-! ## Enums -/

/-- Every entry of an enum trait has a value. -/
def HasValues (s : Shape) : Prop :=
  ¬ s.kind.IsEnum → ∀ j ∈ ((s.traits.get? Trait.enum).getD .null).asList,
    (j.get? "value").isSome = true

/-- An enum has values, and those of an `intEnum` are whole numbers. -/
structure Readable (s : Shape) : Prop where
  values : HasValues s
  whole : s.kind = .intEnum → ∀ m ∈ s.members,
    ∃ n, ((Entries.get? Trait.enumValue m.traits).getD (.text m.name)).toWhole = .ok n

theorem exists_traitEntry_iff {j : Json} :
    (∃ x, Shape.traitEntry j = .ok x) ↔ (j.get? "value").isSome = true := by
  unfold Shape.traitEntry
  cases j.get? "value" <;> simp

theorem enumValues_of_isEnum (h : s.kind.IsEnum) : s.enumValues = .ok (s.members.map fun m =>
    (m.name, (Entries.get? Trait.enumValue m.traits).getD (.text m.name))) := by
  unfold Shape.enumValues
  rw [if_pos (by simpa [ShapeKind.IsEnum] using h)]

theorem enumValues_of_not_isEnum (h : ¬ s.kind.IsEnum) : s.enumValues =
    (((s.traits.get? Trait.enum).getD .null).asList).mapM Shape.traitEntry := by
  unfold Shape.enumValues
  rw [if_neg (by simpa [ShapeKind.IsEnum] using h)]

theorem exists_enumValues_iff : (∃ values, s.enumValues = .ok values) ↔ HasValues s := by
  unfold HasValues
  by_cases henum : s.kind.IsEnum
  · rw [enumValues_of_isEnum henum]
    exact iff_of_true ⟨_, rfl⟩ fun h => absurd henum h
  · rw [enumValues_of_not_isEnum henum, Outcome.exists_mapM_eq_ok, imp_iff_right henum]
    simp only [exists_traitEntry_iff]

theorem failsOnly_enumValues :
    Outcome.FailsOnly (fun e => ∃ name, e = .key name) s.enumValues := by
  by_cases henum : s.kind.IsEnum
  · rw [enumValues_of_isEnum henum]
    exact Outcome.failsOnly_ok _
  · rw [enumValues_of_not_isEnum henum]
    refine .mapM fun j _ => ?_
    unfold Shape.traitEntry
    split
    · exact Outcome.failsOnly_error ⟨_, rfl⟩
    · exact Outcome.failsOnly_ok _

theorem exists_enumValue_iff {whole : Bool} {j : Json} :
    (∃ text, enumValue whole j = .ok text) ↔ (whole = true → ∃ n, j.toWhole = .ok n) := by
  unfold enumValue
  cases whole with
  | false => simp
  | true => simp [Outcome.mapError_eq_ok, Outcome.map_eq_ok]

/-- The class of an enum can be written when its values can be read. -/
theorem exists_enumClass_iff : (∃ c, EnumClass.ofShape s = .ok c) ↔ Readable s := by
  have hvalues : (∃ c, EnumClass.ofShape s = .ok c) ↔ ∃ values, s.enumValues = .ok values ∧
      ∀ v ∈ values, s.kind = .intEnum → ∃ n, v.2.toWhole = .ok n := by
    constructor
    · rintro ⟨c, h⟩
      obtain ⟨values, hok, h⟩ := Outcome.bind_eq_ok.mp h
      obtain ⟨members, hmembers, -⟩ := Outcome.bind_eq_ok.mp h
      refine ⟨values, Outcome.mapError_eq_ok.mp (lift_eq_ok.mp hok), fun v hv hkind => ?_⟩
      obtain ⟨x, -, hx⟩ := Outcome.exists_of_mem_mapM hmembers hv
      obtain ⟨text, htext, -⟩ := Outcome.map_eq_ok.mp hx
      exact exists_enumValue_iff.mp ⟨text, htext⟩ (decide_eq_true hkind)
    · rintro ⟨values, hok, hwhole⟩
      have hmembers : ∃ members, values.mapM (fun v =>
          (enumValue (s.kind = .intEnum) v.2).map (Name.enumMember v.1, ·)) = .ok members := by
        refine Outcome.exists_mapM_eq_ok.mpr fun v hv => Outcome.exists_map_eq_ok.mpr ?_
        exact exists_enumValue_iff.mpr fun hkind => hwhole v hv (of_decide_eq_true hkind)
      obtain ⟨members, hmembers⟩ := hmembers
      exact ⟨_, Outcome.bind_eq_ok.mpr ⟨values, lift_eq_ok.mpr (Outcome.mapError_eq_ok.mpr hok),
        Outcome.bind_eq_ok.mpr ⟨members, hmembers, rfl⟩⟩⟩
  rw [hvalues]
  constructor
  · rintro ⟨values, hok, hwhole⟩
    refine ⟨exists_enumValues_iff.mp ⟨values, hok⟩, fun hkind m hm => ?_⟩
    rw [enumValues_of_isEnum (Or.inr hkind)] at hok
    cases hok
    exact hwhole _ (List.mem_map_of_mem hm) hkind
  · rintro ⟨hvalues, hwhole⟩
    obtain ⟨values, hok⟩ := exists_enumValues_iff.mpr hvalues
    refine ⟨values, hok, fun v hv hkind => ?_⟩
    rw [enumValues_of_isEnum (Or.inr hkind)] at hok
    cases hok
    obtain ⟨m, hm, rfl⟩ := List.mem_map.mp hv
    exact hwhole hkind m hm

theorem failsOnly_liftValues :
    Outcome.FailsOnly Unreadable (GenerateError.lift (s.enumValues.mapError .missing)) := by
  refine Outcome.failsOnly_mapError.mpr (Outcome.failsOnly_mapError.mpr ?_)
  refine failsOnly_enumValues.imp ?_
  rintro _ ⟨name, rfl⟩
  exact .key name

theorem failsOnly_enumClass : Outcome.FailsOnly Unreadable (EnumClass.ofShape s) := by
  refine .bind failsOnly_liftValues fun values _ => .bind (.mapM fun v _ => .map ?_ _) fun _ _ =>
    Outcome.failsOnly_ok _
  unfold enumValue
  split
  · exact Outcome.failsOnly_mapError.mpr fun e _ => .number e
  · exact Outcome.failsOnly_ok _

end Wireform.Source
