import Wireform.Plan
import Wireform.Proofs.Model.Loaded

/-
  Wireform plans: what a restricted model is planned into. Without HTTP bindings no operation has a
  rule, so nothing is planned and nothing fails, whatever the bindings were.
-/

namespace Wireform

namespace Protocol

variable {p : Protocol} {model : Model} {service : Option Shape}

/-! ## Restricted operations -/

theorem get_restrict {id : String} {s : Shape} (h : model.get id = .ok s) :
    (p.restrict model).get id = .ok (p.expressed s) := by
  have hid : ∀ t : Shape, (p.expressed t).id = t.id := fun _ => rfl
  rw [Model.get_eq_ok] at h ⊢
  unfold Model.find? at h ⊢
  rw [restrict_eq, List.find?_map]
  simp only [Function.comp_def, hid, h, Option.map_some]

/-- Operations that are listed are found again, each without what cannot be expressed. -/
theorem exists_restricted_operations
    (hservice : ∀ s, service = some s → ∀ id ∈ s.operations, ∃ op, op.kind = .operation ∧
      model.get id = .ok op) :
    ∃ ops, (p.restrict model).operations service = .ok ops ∧
      ∀ op ∈ ops, ∃ s, s.kind = .operation ∧ op = p.expressed s := by
  cases service with
  | none =>
    refine ⟨_, rfl, fun op hop => ?_⟩
    obtain ⟨hop, hkind⟩ := List.mem_filter.mp (List.mem_mergeSort.mp hop)
    rw [restrict_eq] at hop
    obtain ⟨s, -, rfl⟩ := List.mem_map.mp hop
    exact ⟨s, of_decide_eq_true hkind, rfl⟩
  | some service =>
    refine Outcome.exists_mapM fun id hid => ?_
    obtain ⟨op, hkind, hop⟩ := hservice service rfl id hid
    exact ⟨_, ⟨op, hkind, rfl⟩, get_restrict hop⟩

/-- Without HTTP bindings an operation has no rule. -/
theorem ofShape_expressed {s : Shape} (hhttp : p.supportsHttp = false)
    (hkind : s.kind = .operation) : HttpRule.ofShape (p.expressed s) = .ok none := by
  have hnone : ∀ traits : Traits,
      Entries.get? Trait.http (traits.filter fun t => p.expresses .operation t.1) = none := by
    intro traits
    induction traits with
    | nil => rfl
    | cons t traits ih =>
      rw [List.filter_cons]
      split
      · next hexpresses =>
        have hne : t.1 ≠ Trait.http := by
          intro he
          simp [expresses, he, hhttp] at hexpresses
        rw [Entries.get?, if_neg hne, ih]
      · exact ih
  unfold HttpRule.ofShape Traits.get? expressed
  rw [hkind, hnone]

end Protocol

/-! ## Planning -/

namespace Plan

variable {model : Model} {p : Protocol}

/-- An index without rules stays so at an operation that has none. -/
theorem rule_of_unruled {ix : HttpIndex} {op : Shape} (hix : ∀ x ∈ ix.rules, x.2 = none)
    (hop : HttpRule.ofShape op = .ok none) :
    (ix.rule op).1 = .ok none ∧ ∀ x ∈ (ix.rule op).2.rules, x.2 = none := by
  unfold HttpIndex.rule
  cases hget : Entries.get? op.id ix.rules with
  | some r =>
    obtain rfl : r = none := hix _ (Entries.mem_of_get? hget)
    exact ⟨rfl, hix⟩
  | none =>
    rw [hop]
    exact ⟨rfl, List.forall_mem_cons.mpr ⟨rfl, hix⟩⟩

theorem gather_unruled {ix : HttpIndex} {ops : List Shape} (hix : ∀ x ∈ ix.rules, x.2 = none)
    (hops : ∀ op ∈ ops, HttpRule.ofShape op = .ok none) :
    gather model p ix ops = .ok ([], []) := by
  induction ops generalizing ix with
  | nil => rfl
  | cons op ops ih =>
    obtain ⟨hop, hops⟩ := List.forall_mem_cons.mp hops
    obtain ⟨hrule, hrules⟩ := rule_of_unruled hix hop
    rw [gather]
    unfold ofShape
    dsimp only
    rw [hrule]
    dsimp only
    rw [ih hrules hops]
    rfl

end Plan

namespace Protocol

variable {p : Protocol} {model : Model}

/-- Restricting takes away what the protocol cannot express and nothing else, and twice is once.
Without HTTP bindings there is nothing to plan, and no binding to fail. -/
theorem restrict_expresses :
    p.restrict (p.restrict model) = p.restrict model ∧
    p.restrict model = ⟨model.shapes.map p.expressed⟩ ∧
    (p.supportsHttp = false → ∀ service : Option Shape,
      (∀ s, service = some s → ∀ id ∈ s.operations, ∃ op, op.kind = .operation ∧
        model.get id = .ok op) →
      Plan.ofModel (p.restrict model) p service = .ok []) := by
  refine ⟨?_, restrict_eq, fun hhttp service hservice => ?_⟩
  · rw [restrict_eq, restrict_eq, List.map_map]
    exact congrArg Model.mk (List.map_congr_left fun s _ => expressed_expressed s)
  · obtain ⟨ops, hops, hexpressed⟩ := exists_restricted_operations (p := p) hservice
    have hunruled : ∀ op ∈ ops, HttpRule.ofShape op = .ok none := by
      intro op hop
      obtain ⟨s, hkind, rfl⟩ := hexpressed op hop
      exact ofShape_expressed hhttp hkind
    unfold Plan.ofModel
    rw [hops]
    dsimp only [Except.mapError, bind, Except.bind]
    rw [Plan.gather_unruled (fun _ h => by cases h) hunruled]
    rfl

/-- An operation without a usable URI fails, but has no rule in the restricted model. -/
theorem broken_operation_skipped : ∃ (model : Model) (p : Protocol) (service : Shape)
    (e : PlanError), Plan.ofModel model p (some service) = .error e ∧
      Plan.ofModel (p.restrict model) p (some service) = .ok [] := by
  let put : Shape := { Shape.bare "ns#Put" .operation with
    traits := [(Trait.http, .map [("uri", .text "items")])] }
  let service : Shape := { Shape.bare "ns#Api" .service with operations := ["ns#Put"] }
  let model : Model := ⟨[service, put]⟩
  let p : Protocol := rpc "awsJson1_0" .epochSeconds
  have hfails : Plan.ofModel model p (some service) = .error
      (.bindings [.declaration "ns#Put" (.pattern (.malformed "items"))]) :=
    Outcome.eq_error_of_failsWith (by decide +kernel)
  have hlisted : ∀ s, some service = some s → ∀ id ∈ s.operations, ∃ op, op.kind = .operation ∧
      model.get id = .ok op := by
    rintro _ ⟨⟩ id hid
    obtain rfl := List.mem_singleton.mp hid
    exact ⟨put, rfl, rfl⟩
  exact ⟨model, p, service, _, hfails, (restrict_expresses (p := p)).2.2 rfl (some service) hlisted⟩

end Protocol

end Wireform
