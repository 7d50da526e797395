import Wireform.Settings
import Wireform.Source.Module

/-
  Wireform generation: from a model and settings to the text of a module, by way of the plans of a
  service's operations.
-/

namespace Wireform

/-- A service of a model with the protocol that it is generated for, and the plans of its
operations. -/
structure ServicePlan where
  model : Model
  protocol : Protocol
  service : Shape
  plans : List Plan

/-- Plans the operations of a service under a protocol, which may be left to the model. -/
def ServicePlan.ofModel (m : Model) (service protocol : Option String) :
    Except GenerateError ServicePlan := do
  let s ← (m.selectService service).mapError .model
  let p ← (Protocol.resolve s protocol).mapError .model
  let restricted := p.restrict m
  let s ← GenerateError.lift (restricted.lookup s.id)
  let plans ← (Plan.ofModel restricted p (some s)).mapError .plan
  return ⟨restricted, p, s, plans⟩

/-- The module of planned operations. -/
def render (model : Model) (p : Protocol) (plans : List Plan) (o : Source.ModuleOptions)
    (customizations : List Customization) : Except GenerateError String :=
  (Source.Module.ofPlans ⟨model, p, customizations⟩ plans o).map Source.Module.text

/-- The module of a service. -/
def generate (m : Model) (s : Settings) (customizations : List Customization) :
    Except GenerateError String := do
  let x ← ServicePlan.ofModel m s.service s.protocol
  render x.model x.protocol x.plans ⟨x.service.name, s.library, s.doc⟩ customizations

end Wireform
