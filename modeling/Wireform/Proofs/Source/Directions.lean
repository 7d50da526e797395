import Wireform.Proofs.Binding.Formats
import Wireform.Proofs.Plan.Checks
import Wireform.Proofs.Source.Records
import Wireform.Proofs.Source.Sites

/-
  Wireform source text: one message in both directions. Headers and payloads are bound alike in a
  request and in an answer, and all of their functions have one body but those that read an enum,
  which are strict in a request only.
-/

namespace Wireform

/-! ## Bindings in both directions -/

/-- The parts of a message around the document that both directions have. -/
def Location.isCommon (l : Location) : Bool := l = header || l = prefixHeaders || l = payload

theorem Direction.has_of_isCommon {d : Direction} {l : Location} (hl : l.isCommon = true) :
    d.has l = true := by
  cases l with
  | header | prefixHeaders | payload => cases d <;> rfl
  | query | queryParams | label | document | responseCode => cases hl

namespace Binding

variable {model : Model} {d d' : Direction} {uri uri' : Option Pattern} {m : Member}
  {b b' : Binding} {s : Shape} {bs bs' : List Binding}

theorem ofLocation_of_isCommon {trait : String} {l : Location} {kind : ShapeKind}
    (hl : l.isCommon = true) :
    ofLocation m trait l kind uri = ofLocation m trait l kind uri' := by
  cases l with
  | header | prefixHeaders | payload => rfl
  | query | queryParams | label | document | responseCode => cases hl

/-- What is bound to a part that both directions have is bound alike in the other direction. -/
theorem ofMember_of_isCommon (h : ofMember model d uri m = .ok b)
    (hl : b.location.isCommon = true) : ofMember model d' uri' m = .ok b := by
  have hdocument : b.location ≠ .document := fun he => by rw [he] at hl; cases hl
  obtain ⟨t, trait, htraits, ht, hlocation⟩ := ofMember_target h hdocument
  have hsame : ofLocation m trait b.location t.kind uri' = .ok b :=
    (ofLocation_of_isCommon hl).trans hlocation
  unfold ofMember
  rw [htraits]
  refine Outcome.bind_eq_ok.mpr ⟨t, ht, ?_⟩
  rw [Direction.has_of_isCommon hl, hsame]
  rfl

theorem eq_of_isCommon (h : ofMember model d uri m = .ok b)
    (h' : ofMember model d' uri' m = .ok b') (hl : b.location.isCommon = true) : b = b' :=
  Except.ok.inj ((ofMember_of_isCommon h hl).symm.trans h')

/-- What is bound to such a part in one direction is bound in the other. -/
theorem mem_of_isCommon (h : classify model d uri s = .ok bs)
    (h' : classify model d' uri' s = .ok bs') (hb : b ∈ bs) (hl : b.location.isCommon = true) :
    b ∈ bs' := by
  obtain ⟨m, hm, hmember⟩ := Outcome.exists_of_mem_forall₂ (classify_eq_ok h) hb
  obtain ⟨b', hb', hmember'⟩ :=
    Outcome.exists_of_mem_mapM (Outcome.mapM_eq_ok.mpr (classify_eq_ok h')) hm
  exact eq_of_isCommon hmember hmember' hl ▸ hb'

/-- Steps over the bindings of one shape come to the same in both directions, if they do at the
parts that both directions have and do nothing elsewhere. -/
theorem mapM_classified {ε α : Type} {f g : Binding → Except ε (List α)}
    (h : classify model d uri s = .ok bs) (h' : classify model d' uri' s = .ok bs')
    (hcommon : ∀ b, b.location.isCommon = true → f b = g b)
    (hf : ∀ b, b.location.isCommon = false → f b = .ok [])
    (hg : ∀ b, b.location.isCommon = false → g b = .ok []) : bs.mapM f = bs'.mapM g := by
  have hbs := classify_eq_ok h
  have hbs' := classify_eq_ok h'
  clear h h'
  -- each member has one binding in either direction
  generalize s.members = ms at hbs hbs'
  induction hbs generalizing bs' with
  | nil =>
    cases hbs'
    rfl
  | @cons m b ms bs hb _ ih =>
    obtain ⟨b', bs', hb', hrest, rfl⟩ := List.forall₂_cons_left_iff.mp hbs'
    have hstep : f b = g b' := by
      cases hl : b.location.isCommon with
      | true => exact eq_of_isCommon hb hb' hl ▸ hcommon b hl
      | false =>
        cases hl' : b'.location.isCommon with
        | true =>
          rw [eq_of_isCommon hb' hb hl', hl] at hl'
          cases hl'
        | false => rw [hf b hl, hg b' hl']
    rw [List.mapM_cons, List.mapM_cons, hstep, ih hrest]

end Binding

/-! ## Customizations -/

/-- Adds the same lines in both directions. -/
def Customization.IgnoresDirection (c : Customization) : Prop :=
  ∀ s x d, c.lines s { x with direction := d } = c.lines s x

namespace Source

variable {w : Writer} {x y : Exchange} {b : Binding} {d d' : Definition}

theorem customLines_eq (hcs : ∀ c ∈ w.customizations, c.IgnoresDirection) (hplan : x.plan = y.plan)
    (hcontainer : x.container = y.container) (s : Section) :
    w.customLines x b s = w.customLines y b s := by
  unfold Writer.customLines Customization.linesAt
  rw [hplan, hcontainer]
  exact List.flatMap_congr fun c hc =>
    (hcs c hc s ⟨w.model, y.plan.operation, y.container, b, x.direction⟩ y.direction).symm

/-! ## Strict readers -/

theorem flagLiteral_inj {s t : Bool} : flagLiteral s = flagLiteral t ↔ s = t := by
  cases s <;> cases t <;> decide

/-- What reads a header tells whether it is strict only of an enum. -/
theorem readExpression_inj {f : Format} {s t : Bool}
    (hmedia : f.transform = .member → f.media = false) :
    readExpression f s = readExpression f t ↔ s = t ∨ f.transform ≠ .member := by
  constructor
  · intro h
    refine or_iff_not_imp_right.mpr fun hmember => ?_
    rw [not_not] at hmember
    unfold readExpression elementsExpression converterExpression at h
    simp only [hmember, hmedia hmember, reduceCtorEq, if_false, Bool.false_eq_true] at h
    have hflag : flagLiteral s = flagLiteral t := by
      split at h
      · simpa only [String.append_left_inj, String.append_right_inj] using h
      · simpa only [String.append_left_inj, String.append_right_inj] using h
    exact flagLiteral_inj.mp hflag
  · rintro (rfl | hmember)
    · rfl
    · unfold readExpression elementsExpression converterExpression
      cases ht : f.transform with
      | member => exact absurd ht hmember
      | verbatim | base64 | scalar | timestamp => rfl

theorem payloadValue_inj {t : Shape} {s s' : Bool} :
    payloadValue s t = payloadValue s' t ↔ s = s' ∨ ¬ t.isEnum = true := by
  unfold payloadValue
  split
  · next hblob =>
    have henum : ¬ t.isEnum = true := by simp [Shape.isEnum, hblob]
    exact iff_of_true rfl (Or.inr henum)
  · split
    · next henum =>
      simp only [String.append_left_inj, String.append_right_inj, flagLiteral_inj, henum,
        not_true_eq_false, or_false]
    · next henum => exact iff_of_true rfl (Or.inr henum)

theorem not_isEnum_of_stream {t : Shape}
    (h : t.isStreamingBlob = true ∨ t.isEventStream = true) : ¬ t.isEnum = true := by
  unfold Shape.isStreamingBlob Shape.isEventStream at h
  simp only [Bool.and_eq_true, decide_eq_true_eq] at h
  rcases h with ⟨hkind, -⟩ | ⟨hkind, -⟩
  · simp [Shape.isEnum, hkind]
  · simp [Shape.isEnum, hkind]

/-- A reader of a member reads an enum. -/
def ReadsEnum (w : Writer) (b : Binding) : MemberRole → Prop
  | .readHeader | .readPrefixHeader => ∃ f, w.formatOf b = .ok f ∧ f.transform = .member
  | .readPayload => ∃ t, w.model.targetOf b.member = .ok t ∧ t.isEnum = true
  | .writePayload => False

/-! ## Bodies in both directions -/

/-- Only headers of both directions are added by a common function. -/
theorem addHeaderLines_of_not_isCommon (hl : b.location.isCommon = false) :
    addHeaderLines w x b = .ok [] := by
  unfold addHeaderLines
  split
  · next h =>
    rw [h] at hl
    cases hl
  · next h =>
    rw [h] at hl
    cases hl
  · rfl

theorem addHeaders_body (hcs : ∀ c ∈ w.customizations, c.IgnoresDirection)
    {uri uri' : Option Pattern} (hplan : x.plan = y.plan) (hcontainer : x.container = y.container)
    (hx : Binding.classify w.model x.direction uri x.container = .ok x.bindings)
    (hy : Binding.classify w.model y.direction uri' y.container = .ok y.bindings)
    (h : addHeaders w x = .ok d) (h' : addHeaders w y = .ok d') : d.body = d'.body := by
  obtain ⟨lines, hlines, h⟩ := Outcome.bind_eq_ok.mp h
  obtain ⟨lines', hlines', h'⟩ := Outcome.bind_eq_ok.mp h'
  cases h
  cases h'
  have hsame : x.bindings.mapM (addHeaderLines w x) = y.bindings.mapM (addHeaderLines w y) := by
    refine Binding.mapM_classified hx (hcontainer ▸ hy) (fun b _ => ?_)
      (fun _ => addHeaderLines_of_not_isCommon) fun _ => addHeaderLines_of_not_isCommon
    unfold addHeaderLines prefixHeaderLines
    simp only [customLines_eq hcs hplan hcontainer]
  obtain rfl : lines = lines' := Except.ok.inj (hlines.symm.trans (hsame.trans hlines'))
  rfl

theorem readHeader_body (h : readHeader w x b = .ok d) : ∃ f, w.formatOf b = .ok f ∧
    d.body = ["values = headers.get_all(" ++ textLiteral b.name ++ ")",
      "return " ++ readExpression f x.strict] := by
  obtain ⟨f, hf, h⟩ := Outcome.bind_eq_ok.mp h
  obtain ⟨hint, -, h⟩ := Outcome.bind_eq_ok.mp h
  cases h
  exact ⟨f, hf, rfl⟩

theorem readPrefixHeader_body (h : readPrefixHeader w x b = .ok d) : ∃ f hint,
    w.formatOf b = .ok f ∧ TypeHint.ofMember w.model b.member = .ok hint ∧
    d.body = ["pairs = list(_h.headers_for_prefix(headers.names(), " ++ textLiteral b.name ++
        "))"] ++ w.customLines x b .beforeReading ++ [
      "out: " ++ hint.text ++ " = \x7b\x7d",
      "for key, name in pairs:",
      "    values = headers.get_all(name)",
      "    out[key] = " ++ readExpression f x.strict] ++
      w.customLines x b .afterReading ++ ["return out"] := by
  obtain ⟨f, hf, h⟩ := Outcome.bind_eq_ok.mp h
  obtain ⟨hint, hhint, h⟩ := Outcome.bind_eq_ok.mp h
  cases h
  exact ⟨f, hint, hf, hhint, rfl⟩

theorem writePayload_body (h : writePayload w x b = .ok d) : ∃ t,
    GenerateError.lift (w.model.targetOf b.member) = .ok t ∧
    d.body = ["if payload is None:", "    return _m.Body(b\"\")", payloadBody t] := by
  obtain ⟨t, ht, h⟩ := Outcome.bind_eq_ok.mp h
  obtain ⟨hint, -, h⟩ := Outcome.bind_eq_ok.mp h
  cases h
  exact ⟨t, ht, rfl⟩

/-- A stream is handed over, and other payloads are decoded. -/
theorem readPayload_body (h : readPayload w x b = .ok d) (h' : readPayload w y b = .ok d') :
    d.body = d'.body ↔ x.strict = y.strict ∨ ¬ ReadsEnum w b .readPayload := by
  obtain ⟨t, ht, h⟩ := Outcome.bind_eq_ok.mp h
  obtain ⟨t', ht', h'⟩ := Outcome.bind_eq_ok.mp h'
  obtain rfl : t = t' := Except.ok.inj (ht.symm.trans ht')
  have henum : ReadsEnum w b .readPayload ↔ t.isEnum = true := by
    unfold ReadsEnum
    simp only [lift_eq_ok.mp ht, Except.ok.injEq, exists_eq_left']
  rw [henum, ← payloadValue_inj]
  dsimp only at h h'
  by_cases hblob : t.isStreamingBlob = true
  · rw [if_pos hblob] at h h'
    cases h
    cases h'
    exact iff_of_true rfl (payloadValue_inj.mpr (Or.inr (not_isEnum_of_stream (Or.inl hblob))))
  · rw [if_neg hblob] at h h'
    by_cases hevents : t.isEventStream = true
    · rw [if_pos hevents] at h h'
      cases h
      cases h'
      exact iff_of_true rfl (payloadValue_inj.mpr (Or.inr (not_isEnum_of_stream (Or.inr hevents))))
    · rw [if_neg hevents] at h h'
      obtain ⟨hint, -, h⟩ := Outcome.bind_eq_ok.mp h
      obtain ⟨hint', -, h'⟩ := Outcome.bind_eq_ok.mp h'
      cases h
      cases h'
      simp only [List.cons.injEq, true_and, and_true]

/-- The functions of a member have one body in both directions, but for the readers of enums. -/
theorem member_body_iff {r : MemberRole} (hcs : ∀ c ∈ w.customizations, c.IgnoresDirection)
    (hplan : x.plan = y.plan) (hcontainer : x.container = y.container)
    (h : (Site.member r x b).write w = .ok d) (h' : (Site.member r y b).write w = .ok d') :
    d.body = d'.body ↔ x.strict = y.strict ∨ ¬ ReadsEnum w b r := by
  have hreads : ∀ f, w.formatOf b = .ok f →
      (readExpression f x.strict = readExpression f y.strict ↔
        x.strict = y.strict ∨ ¬ ∃ f, w.formatOf b = .ok f ∧ f.transform = .member) := by
    intro f hf
    rw [readExpression_inj (Format.media_of_rule (lift_eq_ok.mp hf))]
    simp only [hf, Except.ok.injEq, exists_eq_left']
  cases r with
  | readHeader =>
    obtain ⟨f, hf, hbody⟩ := readHeader_body h
    obtain ⟨f', hf', hbody'⟩ := readHeader_body h'
    obtain rfl : f = f' := Except.ok.inj (hf.symm.trans hf')
    rw [hbody, hbody', ReadsEnum, ← hreads f hf]
    simp only [List.cons.injEq, String.append_right_inj, true_and, and_true]
  | readPrefixHeader =>
    obtain ⟨f, hint, hf, hhint, hbody⟩ := readPrefixHeader_body h
    obtain ⟨f', hint', hf', hhint', hbody'⟩ := readPrefixHeader_body h'
    obtain rfl : f = f' := Except.ok.inj (hf.symm.trans hf')
    obtain rfl : hint = hint' := Except.ok.inj (hhint.symm.trans hhint')
    rw [hbody, hbody', ReadsEnum, ← hreads f hf]
    simp only [customLines_eq hcs hplan hcontainer, List.append_cancel_left_eq,
      List.append_cancel_right_eq, List.cons.injEq, String.append_right_inj, true_and, and_true]
  | writePayload =>
    obtain ⟨t, ht, hbody⟩ := writePayload_body h
    obtain ⟨t', ht', hbody'⟩ := writePayload_body h'
    obtain rfl : t = t' := Except.ok.inj (ht.symm.trans ht')
    exact iff_of_true (hbody.trans hbody'.symm) (Or.inr id)
  | readPayload => exact readPayload_body h h'

end Source

end Wireform
