import Wireform.Generate
import Wireform.Proofs.Source.Collecting
import Wireform.Proofs.Source.Functions

/-
  Wireform source text: which planned operations have a module. A module is written for all of them
  when the classes of the shapes that they reach can be, and the defaults and statuses are there.
-/

namespace Wireform.Source

variable {model : Model} {p : Protocol} {plans : List Plan}

/-- The shapes that a module of planned operations is about. -/
def roots (plans : List Plan) : List Shape :=
  plans.flatMap fun p => p.input :: p.output :: p.errors.map (·.1)

/-- The classes that planned operations reach can be written, the algorithm members of checksums
have values and the errors a status. -/
structure Writable (model : Model) (plans : List Plan) : Prop where
  fields : ∀ s, Reached model (roots plans) s → s.kind.isAggregate = true →
    ∀ m ∈ s.members, HasField model m
  enums : ∀ s, Reached model (roots plans) s → s.isEnum = true → Readable s
  defaults : ∀ plan ∈ plans, HasDefault model plan
  statuses : ∀ plan ∈ plans, ∀ x ∈ plan.errors, HasStatus x.1

theorem roots_mem (h : ∀ plan ∈ plans, Plan.Checked model p plan) :
    ∀ s ∈ roots plans, s ∈ model.shapes := by
  intro s hs
  obtain ⟨plan, hplan, hs⟩ := List.mem_flatMap.mp hs
  have hshapes := (h plan hplan).shape
  rcases List.mem_cons.mp hs with rfl | hs
  · exact hshapes _ List.mem_cons_self
  · rcases List.mem_cons.mp hs with rfl | hs
    · exact hshapes _ (List.mem_cons_of_mem _ List.mem_cons_self)
    · obtain ⟨x, hx, rfl⟩ := List.mem_map.mp hs
      exact hshapes (.ofError x.1, x.2) (List.mem_cons_of_mem _ (List.mem_cons_of_mem _
        (List.mem_map_of_mem hx)))

/-! ## Modules -/

section

variable {w : Writer} {o : ModuleOptions} {enums structs : List Shape}

/-- A module has the data classes, then the functions and then the enums. -/
theorem ofPlans_eq (hcollect : collect w.model (roots plans) = .ok (enums, structs)) :
    ∃ write : List DataClass → List (List Definition) → List EnumClass → Module,
      Module.ofPlans w plans o = do
      let classes ← dataClasses w.model w.protocol [] structs
      let functions ← plans.mapM (operationFunctions w)
      let enums ← enums.mapM EnumClass.ofShape
      return write classes functions enums := by
  unfold Module.ofPlans
  unfold roots at hcollect
  dsimp only
  rw [hcollect]
  exact ⟨_, rfl⟩

/-- What a module is made of. -/
theorem written_of_ofPlans {m : Module} (h : Module.ofPlans w plans o = .ok m) :
    ∃ enums structs parts, collect w.model (roots plans) = .ok (enums, structs) ∧
      dataClasses w.model w.protocol [] structs = .ok m.classes ∧
      plans.mapM (operationFunctions w) = .ok parts ∧ m.functions = parts.flatten ∧
      enums.mapM EnumClass.ofShape = .ok m.enums ∧
      m.service = o.service ∧ m.uris = plans.map uriConstant := by
  obtain ⟨⟨enums, structs⟩, hcollect, h⟩ := Outcome.bind_eq_ok.mp h
  obtain ⟨classes, hclasses, h⟩ := Outcome.bind_eq_ok.mp h
  obtain ⟨parts, hparts, h⟩ := Outcome.bind_eq_ok.mp h
  obtain ⟨written, henums, h⟩ := Outcome.bind_eq_ok.mp h
  rw [← Except.ok.inj h]
  exact ⟨enums, structs, parts, lift_eq_ok.mp hcollect, hclasses, hparts, rfl, henums, rfl, rfl⟩

theorem isRecord_of_collected (hchecked : ∀ plan ∈ plans, Plan.Checked w.model w.protocol plan)
    (hstructs : ∀ s, s ∈ structs ↔ Reached w.model (roots plans) s ∧ s.kind.isAggregate = true) :
    ∀ s ∈ structs, IsRecord w.model s := by
  intro s hs
  obtain ⟨hreached, haggregate⟩ := (hstructs s).mp hs
  exact ⟨hreached.mem (roots_mem hchecked), haggregate⟩

theorem exists_ofPlans_iff (hsound : w.model.Sound)
    (hchecked : ∀ plan ∈ plans, Plan.Checked w.model w.protocol plan) :
    (∃ m, Module.ofPlans w plans o = .ok m) ↔ Writable w.model plans := by
  obtain ⟨enums, structs, hcollect, henums, hstructs⟩ :=
    exists_collect hsound (roots_mem hchecked)
  obtain ⟨write, hplans⟩ := ofPlans_eq (o := o) hcollect
  have hrecords := isRecord_of_collected hchecked hstructs
  rw [hplans]
  constructor
  · rintro ⟨m, h⟩
    obtain ⟨classes, hclasses, h⟩ := Outcome.bind_eq_ok.mp h
    obtain ⟨functions, hfunctions, h⟩ := Outcome.bind_eq_ok.mp h
    obtain ⟨written, henumClasses, -⟩ := Outcome.bind_eq_ok.mp h
    have hfields := (exists_dataClasses_iff hsound hrecords).mp ⟨classes, hclasses⟩
    have hoperations : ∀ plan ∈ plans,
        HasDefault w.model plan ∧ ∀ x ∈ plan.errors, HasStatus x.1 := fun plan hplan =>
      (exists_operationFunctions_iff hsound (hchecked plan hplan)).mp
        (Outcome.exists_mapM_eq_ok.mp ⟨functions, hfunctions⟩ plan hplan)
    refine ⟨fun s hs haggregate => hfields s ((hstructs s).mpr ⟨hs, haggregate⟩),
      fun s hs henum => ?_, fun plan hplan => (hoperations plan hplan).1,
      fun plan hplan => (hoperations plan hplan).2⟩
    exact exists_enumClass_iff.mp
      (Outcome.exists_mapM_eq_ok.mp ⟨written, henumClasses⟩ s ((henums s).mpr ⟨hs, henum⟩))
  · intro h
    have hdata : ∃ cs, dataClasses w.model w.protocol [] structs = .ok cs :=
      (exists_dataClasses_iff hsound hrecords).mpr fun s hs =>
        h.fields s ((hstructs s).mp hs).1 ((hstructs s).mp hs).2
    obtain ⟨classes, hclasses⟩ := hdata
    obtain ⟨functions, hfunctions⟩ := Outcome.exists_mapM_eq_ok.mpr fun plan hplan =>
      (exists_operationFunctions_iff hsound (hchecked plan hplan)).mpr
        ⟨h.defaults plan hplan, h.statuses plan hplan⟩
    obtain ⟨written, henumClasses⟩ := Outcome.exists_mapM_eq_ok.mpr fun s hs =>
      exists_enumClass_iff.mpr (h.enums s ((henums s).mp hs).1 ((henums s).mp hs).2)
    exact ⟨_, Outcome.bind_eq_ok.mpr ⟨classes, hclasses,
      Outcome.bind_eq_ok.mpr ⟨functions, hfunctions,
        Outcome.bind_eq_ok.mpr ⟨written, henumClasses, rfl⟩⟩⟩⟩

/-- Behind the data classes only values that cannot be read are in the way. -/
theorem failsOnly_behind_dataClasses {α : Type} (hsound : w.model.Sound)
    (hchecked : ∀ plan ∈ plans, Plan.Checked w.model w.protocol plan)
    {write : List (List Definition) → List EnumClass → α} :
    Outcome.FailsOnly Unreadable (do
      let functions ← plans.mapM (operationFunctions w)
      let enums ← enums.mapM EnumClass.ofShape
      return write functions enums) := by
  refine .bind (.mapM fun plan hplan => ?_) fun _ _ =>
    .bind (.mapM fun _ _ => failsOnly_enumClass) fun _ _ => Outcome.failsOnly_ok _
  have hplan := hchecked plan hplan
  exact failsOnly_operationFunctions hsound hplan (failsOnly_checksumDefaultLines hplan)
    fun _ _ => failsOnly_errorStatus

theorem failsOnly_ofPlans (hsound : w.model.Sound)
    (hchecked : ∀ plan ∈ plans, Plan.Checked w.model w.protocol plan) :
    Outcome.FailsOnly Fault (Module.ofPlans w plans o) := by
  obtain ⟨enums, structs, hcollect, -, hstructs⟩ := exists_collect hsound (roots_mem hchecked)
  obtain ⟨write, hplans⟩ := ofPlans_eq (o := o) hcollect
  rw [hplans]
  exact .bind (failsOnly_dataClasses hsound (isRecord_of_collected hchecked hstructs))
    fun _ _ => (failsOnly_behind_dataClasses hsound hchecked).imp fun _ => .unreadable

end

end Wireform.Source
