import Mathlib.Data.List.ReduceOption
import Wireform.Proofs.Plan.Checks
import Wireform.Proofs.Plan.Lookups

/-
  Wireform plans: operations are planned apart from each other. An operation comes to the same with
  whatever the index remembers of those before it, and its error takes nothing from the others.
-/

namespace Wireform.Plan

variable {model : Model} {p : Protocol} {service : Option Shape} {ops : List Shape}

/-! ## The index -/

/-- What comes of an operation with nothing remembered. -/
def alone (model : Model) (p : Protocol) (op : Shape) : Except AnalysisError (Option Plan) :=
  (ofShape model p .empty op).1

/-- The index that remains once operations are planned, of which some may have failed. -/
def indexAfter (model : Model) (p : Protocol) (ops : List Shape) : HttpIndex :=
  ops.foldl (fun ix op => (ofShape model p ix op).2) .empty

theorem holds_foldl (hids : model.ids.Nodup) {ix : HttpIndex} (hix : Holds model ix)
    (hops : ∀ op ∈ ops, op ∈ model.shapes) :
    Holds model (ops.foldl (fun ix op => (ofShape model p ix op).2) ix) := by
  induction ops generalizing ix with
  | nil => exact hix
  | cons op ops ih =>
    obtain ⟨hop, hops⟩ := List.forall_mem_cons.mp hops
    exact ih (holds_rule hids hix hop) hops

theorem mem_shapes_of_operations (hops : model.operations service = .ok ops) :
    ∀ op ∈ ops, op ∈ model.shapes := by
  intro op hop
  unfold Model.operations at hops
  cases service with
  | none =>
    cases hops
    exact (List.mem_filter.mp (List.mem_mergeSort.mp hop)).1
  | some s =>
    obtain ⟨id, -, hid⟩ := Outcome.exists_of_mem_forall₂ (Outcome.mapM_eq_ok.mp hops) hop
    exact Model.mem_shapes_of_get hid

/-! ## Plans and errors apart -/

/-- The errors are those of the operations that fail. -/
theorem errors_sorted (rs : List (Except BindingError (Option Plan))) :
    ((sorted rs).2.map fun e => (.error (.binding e) : Except AnalysisError (Option Plan))) =
      (rs.map fun r => r.mapError .binding).filter fun r => !r.isOk := by
  induction rs with
  | nil => rfl
  | cons r rs ih =>
    cases r with
    | ok plan => exact ih
    | error e => exact congrArg (.error (.binding e) :: ·) ih

/-- Without an error there are only plans, and operations that have none. -/
theorem sorted_of_plans {rs : List (Except BindingError (Option Plan))}
    {plans : List (Option Plan)} (h : (rs.map fun r => r.mapError .binding) =
      plans.map fun plan => (.ok plan : Except AnalysisError (Option Plan))) :
    sorted rs = (plans.reduceOption, []) := by
  induction rs generalizing plans with
  | nil =>
    cases plans with
    | nil => rfl
    | cons plan plans => cases h
  | cons r rs ih =>
    cases plans with
    | nil => cases h
    | cons plan plans =>
      obtain ⟨hr, hrs⟩ := List.cons.inj h
      cases r with
      | error e => cases hr
      | ok plan' =>
        cases hr
        rw [sorted, ih hrs]
        cases plan <;> rfl

/-! ## All operations -/

/-- Where operations fail with errors of bindings only, all of them are settled. -/
theorem exists_settled (hfails : ∀ op ∈ ops, Outcome.FailsOnly AnalysisError.IsBinding
    (alone model p op)) : ∃ rs, ops.mapM (settle model p) = .ok rs ∧
      ops.map (alone model p) = rs.map fun r => r.mapError .binding := by
  have hsettle : ∀ op ∈ ops, ∃ r, settle model p op = .ok r := by
    intro op hop
    cases halone : alone model p op with
    | ok plan => exact ⟨.ok plan, spare_eq_ok.mpr halone⟩
    | error e =>
      obtain ⟨b, rfl⟩ := hfails op hop e halone
      exact ⟨.error b, spare_eq_ok.mpr halone⟩
  obtain ⟨rs, hrs⟩ := Outcome.exists_mapM_eq_ok.mpr hsettle
  refine ⟨rs, hrs, ?_⟩
  have hsettled := Outcome.mapM_eq_ok.mp hrs
  clear hrs hfails hsettle
  induction hsettled with
  | nil => rfl
  | cons h _ ih => rw [List.map_cons, List.map_cons, ← ih, ← spare_eq_ok.mp h, alone]

/-- Whatever the index remembers of the operations before, an operation comes to the same as
alone. Where operations fail with errors of bindings only, there are the plans of all of them in
order, or else the errors of all that fail. -/
theorem ofModel_of_alone (hids : model.ids.Nodup) (hops : model.operations service = .ok ops) :
    (∀ before op after, ops = before ++ op :: after →
      (ofShape model p (indexAfter model p before) op).1 = alone model p op) ∧
    ((∀ op ∈ ops, Outcome.FailsOnly AnalysisError.IsBinding (alone model p op)) →
      (∀ plans : List (Option Plan), ops.map (alone model p) = plans.map .ok →
        ofModel model p service = .ok plans.reduceOption) ∧
      ((∃ op ∈ ops, ∃ e, alone model p op = .error e) →
        ∃ es, ofModel model p service = .error (.bindings es) ∧
          es.map (fun e => .error (.binding e)) =
            (ops.map (alone model p)).filter fun r => !r.isOk)) := by
  have hmem := mem_shapes_of_operations hops
  refine ⟨fun before op after hsplit => ?_, fun hfails => ?_⟩
  · rw [hsplit, List.forall_mem_append, List.forall_mem_cons] at hmem
    exact ofShape_of_holds (holds_foldl hids holds_empty hmem.1) hmem.2.1
  obtain ⟨rs, hrs, halone⟩ := exists_settled hfails
  have herrors := halone ▸ errors_sorted rs
  rw [ofModel_eq hids hops hmem, hrs]
  dsimp only
  refine ⟨fun plans hplans => ?_, ?_⟩
  · rw [sorted_of_plans (halone ▸ hplans)]
    rfl
  · rintro ⟨op, hop, e, he⟩
    have hfail : .error e ∈ (ops.map (alone model p)).filter fun r => !r.isOk :=
      List.mem_filter.mpr ⟨he ▸ List.mem_map_of_mem hop, rfl⟩
    have hsome : (sorted rs).2.isEmpty = false := by
      rw [← herrors] at hfail
      cases hes : (sorted rs).2 with
      | nil => rw [hes] at hfail; cases hfail
      | cons b es => rfl
    exact ⟨(sorted rs).2, by simp only [hsome, Bool.false_eq_true, if_false], herrors⟩

/-- Of two operations without a usable URI one is listed twice, around one that has a plan. -/
theorem broken_operations : ∃ (model : Model) (p : Protocol) (service : Shape) (ops : List Shape),
    model.ids.Nodup ∧ model.operations (some service) = .ok ops ∧ ops.length = 4 ∧
    ∃ es, ofModel model p (some service) = .error (.bindings es) ∧ es.length = 3 ∧
      es.map (fun e => .error (.binding e)) =
        (ops.map (alone model p)).filter fun r => !r.isOk := by
  let operation (id uri : String) : Shape :=
    { Shape.bare id .operation with traits := [(Trait.http, .map [("uri", .text uri)])] }
  let broken := operation "ns#Put" "items"
  let unclosed := operation "ns#Get" "/\x7bId"
  let sound := operation "ns#List" "/items"
  let service : Shape := { Shape.bare "ns#Api" .service with
    operations := ["ns#Put", "ns#List", "ns#Get", "ns#Put"] }
  let model : Model := ⟨[.bare Model.unit .struct, service, broken, unclosed, sound]⟩
  let p : Protocol := .rest "restJson1" .epochSeconds
  have hids : model.ids.Nodup := by decide
  have hops : model.operations (some service) = .ok [broken, sound, unclosed, broken] := rfl
  have hbroken : alone model p broken =
      .error (.declared "ns#Put" (.pattern (.malformed "items"))) :=
    Outcome.eq_error_of_failsWith (by decide +kernel)
  have hunclosed : alone model p unclosed =
      .error (.declared "ns#Get" (.pattern (.malformed "/\x7bId"))) :=
    Outcome.eq_error_of_failsWith (by decide +kernel)
  have hpasses : Outcome.passes (fun _ => true) (alone model p sound) = true := by decide +kernel
  obtain ⟨plan, hsound, -⟩ := Outcome.exists_of_passes hpasses
  have hfails : ∀ op ∈ [broken, sound, unclosed, broken],
      Outcome.FailsOnly AnalysisError.IsBinding (alone model p op) := by
    intro op hop
    simp only [List.mem_cons, List.not_mem_nil, or_false] at hop
    rcases hop with rfl | rfl | rfl | rfl
    · exact hbroken ▸ Outcome.failsOnly_error ⟨_, rfl⟩
    · exact Outcome.failsOnly_of_eq_ok hsound
    · exact hunclosed ▸ Outcome.failsOnly_error ⟨_, rfl⟩
    · exact hbroken ▸ Outcome.failsOnly_error ⟨_, rfl⟩
  obtain ⟨es, hmodel, hes⟩ := ((ofModel_of_alone (p := p) hids hops).2 hfails).2
    ⟨broken, List.mem_cons_self, _, hbroken⟩
  have hlength := congrArg List.length hes
  simp only [List.length_map, List.map_cons, List.map_nil, hbroken, hunclosed, hsound] at hlength
  exact ⟨model, p, service, _, hids, hops, rfl, es, hmodel, hlength, hes⟩

end Wireform.Plan
