import Wireform.Binding.Http
import Wireform.Proofs.Uri.PatternForm

/-
  Wireform bindings: what the bindings of a message look like. There is one for each member, at a
  location that the direction has, and a label has the index of its segment.
-/

namespace Wireform

/-- A binding that a message of a direction can have. -/
structure Binding.WellFormed (direction : Direction) (b : Binding) : Prop where
  located : direction.has b.location = true
  indexed : b.index.isSome = true ↔ b.location = .label

namespace Binding

theorem WellFormed.eq_request {direction : Direction} {b : Binding} (h : b.WellFormed direction)
    (hl : b.location.isRequestOnly = true) : direction = .request := by
  cases direction with
  | request => rfl
  | response =>
    have hhas : (!b.location.isRequestOnly) = true := h.located
    rw [hl] at hhas
    cases hhas

theorem WellFormed.eq_response {direction : Direction} {b : Binding} (h : b.WellFormed direction)
    (hl : b.location.isResponseOnly = true) : direction = .response := by
  cases direction with
  | request =>
    have hhas : (!b.location.isResponseOnly) = true := h.located
    rw [hl] at hhas
    cases hhas
  | response => rfl

theorem ofLabel_form {m : Member} {kind : ShapeKind} {uri : Option Pattern} {b : Binding}
    (h : ofLabel m kind uri = .ok b) :
    b.member = m ∧ b.location = .label ∧ b.index.isSome = true := by
  unfold ofLabel at h
  split at h
  · cases h
  · next p s hs =>
    split at h
    · cases h
    · cases h
      obtain ⟨q, -, hq⟩ := Option.bind_eq_some_iff.mp hs
      obtain ⟨t, ht, he⟩ := Option.map_eq_some_iff.mp hq
      cases he
      exact ⟨rfl, rfl, Pattern.exists_labelIndex ht⟩

theorem ofLocation_form {m : Member} {trait : String} {location : Location} {kind : ShapeKind}
    {uri : Option Pattern} {b : Binding} (h : ofLocation m trait location kind uri = .ok b) :
    b.member = m ∧ b.location = location ∧ (b.index.isSome = true ↔ b.location = .label) := by
  have hplain : ∀ (l : Location) (name : String), l ≠ .label → (named m l name).member = m ∧
      (named m l name).location = l ∧
      ((named m l name).index.isSome = true ↔ (named m l name).location = .label) :=
    fun l name hl => ⟨rfl, rfl, fun h => Bool.noConfusion h, fun h => absurd h hl⟩
  unfold ofLocation at h
  cases location with
  | prefixHeaders | queryParams =>
    dsimp only at h
    split at h
    · cases h
    · cases h
      exact hplain _ _ (by decide)
  | header | query =>
    dsimp only at h
    split at h
    · cases h
    · split at h
      · cases h
      · cases h
        exact hplain _ _ (by decide)
  | label =>
    obtain ⟨hm, hl, hi⟩ := ofLabel_form h
    exact ⟨hm, hl, fun _ => hl, fun _ => hi⟩
  | payload | responseCode =>
    dsimp only at h
    split at h
    · cases h
      exact hplain _ "" (by decide)
    · cases h
  | document =>
    cases h
    exact hplain _ "" (by decide)

theorem plain_document_wellFormed (direction : Direction) (m : Member) :
    (plain m .document).WellFormed direction := by
  refine ⟨?_, fun h => Bool.noConfusion h, fun h => by cases h⟩
  cases direction with
  | request => rfl
  | response => rfl

theorem ofMember_form {model : Model} {direction : Direction} {uri : Option Pattern} {m : Member}
    {b : Binding} (h : ofMember model direction uri m = .ok b) :
    b.member = m ∧ b.WellFormed direction := by
  unfold ofMember at h
  split at h
  · cases h
    exact ⟨rfl, plain_document_wellFormed direction m⟩
  · next trait location _ =>
    obtain ⟨target, -, h⟩ := Outcome.bind_eq_ok.mp h
    split at h
    · cases h
      exact ⟨rfl, plain_document_wellFormed direction m⟩
    · next hhas =>
      obtain ⟨hm, hl, hi⟩ := ofLocation_form (Outcome.mapError_eq_ok.mp h)
      refine ⟨hm, ?_, hi⟩
      rw [hl]
      simpa using hhas
  · cases h

/-- Outside the document a member is bound by its only binding trait and its target. -/
theorem ofMember_target {model : Model} {direction : Direction} {uri : Option Pattern} {m : Member}
    {b : Binding} (h : ofMember model direction uri m = .ok b) (hl : b.location ≠ .document) :
    ∃ t trait, traitsOf m = [(trait, b.location)] ∧ model.targetOf m = .ok t ∧
      ofLocation m trait b.location t.kind uri = .ok b := by
  unfold ofMember at h
  split at h
  · cases h
    exact absurd rfl hl
  · next trait location htraits =>
    obtain ⟨target, htarget, h⟩ := Outcome.bind_eq_ok.mp h
    split at h
    · cases h
      exact absurd rfl hl
    · have hlocation := Outcome.mapError_eq_ok.mp h
      obtain ⟨-, rfl, -⟩ := ofLocation_form hlocation
      exact ⟨target, trait, htraits, htarget, hlocation⟩
  · cases h

/-- The bindings of a shape are those of its members in order. -/
theorem classify_eq_ok {model : Model} {direction : Direction} {uri : Option Pattern} {s : Shape}
    {bs : List Binding} (h : classify model direction uri s = .ok bs) :
    List.Forall₂ (fun m b => ofMember model direction uri m = .ok b) s.members bs := by
  obtain ⟨bs', hbs, h⟩ := Outcome.bind_eq_ok.mp h
  split at h
  · cases h
  · cases h
    exact Outcome.mapM_eq_ok.mp hbs

/-- Each binding of a message is that of its own member. -/
theorem ofMember_of_mem {model : Model} {direction : Direction} {uri : Option Pattern} {s : Shape}
    {bs : List Binding} (h : classify model direction uri s = .ok bs) {b : Binding} (hb : b ∈ bs) :
    ofMember model direction uri b.member = .ok b := by
  obtain ⟨m, -, hok⟩ := Outcome.exists_of_mem_forall₂ (classify_eq_ok h) hb
  rwa [(ofMember_form hok).1]

theorem classify_form {model : Model} {direction : Direction} {uri : Option Pattern} {s : Shape}
    {bs : List Binding} (h : classify model direction uri s = .ok bs) {b : Binding} (hb : b ∈ bs) :
    b.member ∈ s.members ∧ b.WellFormed direction := by
  obtain ⟨m, hm, hok⟩ := Outcome.exists_of_mem_forall₂ (classify_eq_ok h) hb
  obtain ⟨rfl, hform⟩ := ofMember_form hok
  exact ⟨hm, hform⟩

/-- Whatever is bound outside the document has one binding trait and a target. -/
theorem classify_target {model : Model} {direction : Direction} {uri : Option Pattern} {s : Shape}
    {bs : List Binding} (h : classify model direction uri s = .ok bs) {b : Binding} (hb : b ∈ bs)
    (hl : b.location ≠ .document) : ∃ t trait, traitsOf b.member = [(trait, b.location)] ∧
      model.targetOf b.member = .ok t ∧ ofLocation b.member trait b.location t.kind uri = .ok b := by
  obtain ⟨m, -, hok⟩ := Outcome.exists_of_mem_forall₂ (classify_eq_ok h) hb
  obtain ⟨rfl, -⟩ := ofMember_form hok
  exact ofMember_target hok hl

/-! ## The members together -/

/-- What the bindings of a message keep to when they are taken together. -/
theorem conflict?_eq_none {direction : Direction} {uri : Option Pattern} {bs : List Binding}
    (h : conflict? direction uri bs = none) :
    (located .payload bs).length ≤ 1 ∧
      (located .payload bs ≠ [] → located .document bs = []) ∧
      (∀ l ∈ singleLocations, (located l bs).length ≤ 1) ∧
      ∀ p, direction = .request → uri = some p → unbound? p bs = none := by
  unfold conflict? at h
  split at h
  · cases h
  · cases h
  · next payloads documents hseveral hbody =>
    have hpayload : (located .payload bs).length ≤ 1 ∧
        (located .payload bs ≠ [] → located .document bs = []) := by
      cases hp : located .payload bs with
      | nil => exact ⟨Nat.zero_le 1, fun hne => absurd rfl hne⟩
      | cons b rest =>
        cases rest with
        | cons c rest => exact absurd hp (hseveral b c rest)
        | nil =>
          refine ⟨Nat.le_refl 1, fun _ => ?_⟩
          cases hd : located .document bs with
          | nil => rfl
          | cons d ds => exact absurd hd (hbody b d ds hp)
    split at h
    · cases h
    · next hsingle =>
      refine ⟨hpayload.1, hpayload.2, fun l hl => ?_, ?_⟩
      · simpa using List.find?_eq_none.mp hsingle l hl
      · rintro p rfl rfl
        simpa using h

theorem classify_conflict {model : Model} {direction : Direction} {uri : Option Pattern} {s : Shape}
    {bs : List Binding} (h : classify model direction uri s = .ok bs) :
    conflict? direction uri bs = none := by
  obtain ⟨bs', -, h⟩ := Outcome.bind_eq_ok.mp h
  split at h
  · cases h
  · next hconflict =>
    cases h
    exact hconflict

/-- Every label of the URI has a binding in a message that could be bound. -/
theorem unbound?_eq_none {model : Model} {uri : Pattern} {s : Shape} {bs : List Binding}
    (h : classify model .request (some uri) s = .ok bs) : unbound? uri bs = none :=
  (conflict?_eq_none (classify_conflict h)).2.2.2 uri rfl rfl

end Binding

end Wireform
