import Mathlib.Combinatorics.Pigeonhole
import Mathlib.Logic.Function.Iterate
import Wireform.Proofs.Model.Loaded
import Wireform.Proofs.Sensitivity.Walks
import Wireform.Source.TypeHint

/-
  Wireform source text: which shapes have a type hint. Lists, sets and maps take their hint from the
  shape that they hold, one call inside the other. So there is a hint where this comes to an end at
  a shape that has one of its own and the calls fit on the stack; they run out of it where as many
  lists, sets and maps are on the way as it has room for calls. A chain that is longer than the
  model goes round in a circle, and no stack has room for it.
-/

namespace Wireform

variable {model : Model}

/-! ## Chains -/

namespace Model

/-- A list, set or map holds values of another shape. -/
def HoldsValues (model : Model) (s t : Shape) : Prop :=
  s.kind.Holds ∧ model.targetOf s.element = .ok t

/-- Lists, sets and maps that hold each other without end. -/
def Endless (model : Model) (s : Shape) : Prop :=
  ∃ chain : Nat → Shape, chain 0 = s ∧ ∀ n, model.HoldsValues (chain n) (chain (n + 1))

/-- A shape ends, within a number of shapes, in one that holds no values and that has a hint. -/
inductive Hinted (model : Model) : Nat → Shape → Prop
  | plain {n : Nat} {s : Shape} (hkind : ¬ s.kind.Holds) (hoperation : s.kind ≠ .operation)
      (hservice : s.kind ≠ .service) : Hinted model (n + 1) s
  | holds {n : Nat} {s t : Shape} (hst : model.HoldsValues s t) (ht : Hinted model n t) :
      Hinted model (n + 1) s

variable {s t u : Shape}

theorem HoldsValues.unique (ht : model.HoldsValues s t) (hu : model.HoldsValues s u) : t = u :=
  Except.ok.inj (ht.2 ▸ hu.2)

theorem HoldsValues.mem (h : model.HoldsValues s t) : t ∈ model.shapes :=
  mem_shapes_of_get (targetOf_eq_ok.mp h.2)

/-- Whatever is endless holds something endless. -/
theorem Endless.next (h : model.Endless s) : ∃ t, model.HoldsValues s t ∧ model.Endless t := by
  obtain ⟨chain, rfl, hchain⟩ := h
  exact ⟨chain 1, hchain 0, fun n => chain (n + 1), rfl, fun n => hchain (n + 1)⟩

end Model

/-! ## Hints -/

namespace Source.TypeHint

variable {defined : Option (List String)} {s t : Shape} {room : Nat}

/-- A list, set or map passes on what becomes of the shape that it holds. -/
theorem ofShapeWithin_of_holds (h : model.HoldsValues s t) :
    ∃ wrap : TypeHint → TypeHint, ∀ room, ofShapeWithin model defined (room + 1) s =
      (ofShapeWithin model defined room t).map wrap := by
  have htarget : GenerateError.lift (model.targetOf s.element) = .ok t := by
    rw [h.2]
    rfl
  have hkind : s.kind = .list ∨ s.kind = .set ∨ s.kind = .map := by
    simpa [ShapeKind.Holds, ShapeKind.isCollection, or_assoc] using h.1
  refine ⟨if s.kind = .map then dict else list, fun room => ?_⟩
  rcases hkind with hkind | hkind | hkind
  all_goals
    simp only [ofShapeWithin, Shape.isStreamingBlob, Shape.isEventStream, Shape.isEnum, hkind,
      ShapeKind.isAggregate, ShapeKind.isCollection, htarget, reduceCtorEq, decide_false,
      decide_true, Bool.false_and, Bool.or_false, Bool.or_true, Bool.false_eq_true, if_false,
      if_true]
    rfl

/-- Any other shape has a hint unless it is an operation or a service. -/
theorem ofShapeWithin_of_not_holds (h : ¬ s.kind.Holds) :
    (∃ hint, ∀ room, ofShapeWithin model defined (room + 1) s = .ok hint) ∧
        s.kind ≠ .operation ∧ s.kind ≠ .service ∨
      (∀ room, ofShapeWithin model defined (room + 1) s = .error (.noHint s.kind)) ∧
        (s.kind = .operation ∨ s.kind = .service) := by
  obtain ⟨hcollection, hmap⟩ := not_or.mp h
  by_cases hlone : s.kind = .operation ∨ s.kind = .service
  · refine Or.inr ⟨fun room => ?_, hlone⟩
    rcases hlone with hkind | hkind
    all_goals simp [ofShapeWithin, Shape.isStreamingBlob, Shape.isEventStream, Shape.isEnum, hkind,
      ShapeKind.isAggregate, ShapeKind.isCollection, ofKind?]
  · refine Or.inl ⟨?_, not_or.mp hlone⟩
    simp only [ofShapeWithin, if_neg hcollection, if_neg hmap]
    by_cases hblob : s.isStreamingBlob = true
    · exact ⟨_, fun _ => if_pos hblob⟩
    rw [if_neg hblob]
    by_cases hstream : s.isEventStream = true
    · exact ⟨_, fun _ => if_pos hstream⟩
    rw [if_neg hstream]
    by_cases hclass : (s.isEnum || s.kind.isAggregate) = true
    · exact ⟨_, fun _ => if_pos hclass⟩
    rw [if_neg hclass]
    -- what is left has a name of its own
    obtain ⟨name, hname⟩ : ∃ name, ofKind? s.kind = some name := by
      revert hcollection hmap hlone hclass
      unfold Shape.isEnum
      cases s.kind
      all_goals simp [ofKind?, ShapeKind.isCollection, ShapeKind.isAggregate]
    exact ⟨builtin name, fun _ => by rw [hname]⟩

/-- What becomes of a shape, one link at a time. -/
theorem ofShapeWithin_cases (hsound : model.Sound) (hs : s ∈ model.shapes) :
    (∃ t wrap, model.HoldsValues s t ∧ t ∈ model.shapes ∧
      ∀ room, ofShapeWithin model defined (room + 1) s =
        (ofShapeWithin model defined room t).map wrap) ∨
    ¬ s.kind.Holds ∧
      ((∃ hint, ∀ room, ofShapeWithin model defined (room + 1) s = .ok hint) ∧
          s.kind ≠ .operation ∧ s.kind ≠ .service ∨
        (∀ room, ofShapeWithin model defined (room + 1) s = .error (.noHint s.kind)) ∧
          (s.kind = .operation ∨ s.kind = .service)) := by
  by_cases hkind : s.kind.Holds
  · obtain ⟨t, ht, htarget⟩ := hsound.exists_element hs hkind
    obtain ⟨wrap, hwrap⟩ := ofShapeWithin_of_holds ⟨hkind, htarget⟩
    exact Or.inl ⟨t, wrap, ⟨hkind, htarget⟩, ht, hwrap⟩
  · exact Or.inr ⟨hkind, ofShapeWithin_of_not_holds hkind⟩

/-- A shape has a hint exactly when it ends in time in one that has a hint of its own. -/
theorem exists_ofShapeWithin_iff (hsound : model.Sound) (hs : s ∈ model.shapes) :
    (∃ hint, ofShapeWithin model defined room s = .ok hint) ↔ model.Hinted room s := by
  induction room generalizing s with
  | zero => exact iff_of_false (fun ⟨_, h⟩ => by cases h) fun h => by cases h
  | succ room ih =>
    obtain ⟨t, wrap, hst, ht, hwrap⟩ |
        ⟨hkind, ⟨⟨hint, hok⟩, hoperation, hservice⟩ | ⟨hno, hlone⟩⟩ :=
      ofShapeWithin_cases hsound hs
    · rw [hwrap, Outcome.exists_map_eq_ok, ih ht]
      refine ⟨.holds hst, fun h => ?_⟩
      cases h with
      | plain hkind _ _ => exact absurd hst.1 hkind
      | holds hsu hu => exact hsu.unique hst ▸ hu
    · exact iff_of_true ⟨hint, hok room⟩ (.plain hkind hoperation hservice)
    · refine iff_of_false (fun ⟨_, h⟩ => ?_) fun h => ?_
      · rw [hno] at h
        cases h
      · cases h with
        | plain _ hoperation hservice => exact hlone.elim hoperation hservice
        | holds hsu _ => exact hkind hsu.1

theorem failsOnly_ofShapeWithin (hsound : model.Sound) (hs : s ∈ model.shapes) :
    Outcome.FailsOnly (fun e => e = .tooDeep ∨ ∃ k, e = .noHint k)
      (ofShapeWithin model defined room s) := by
  induction room generalizing s with
  | zero => exact Outcome.failsOnly_error (Or.inl rfl)
  | succ room ih =>
    obtain ⟨t, wrap, -, ht, hwrap⟩ | ⟨-, ⟨⟨hint, hok⟩, -⟩ | ⟨hno, -⟩⟩ :=
      ofShapeWithin_cases hsound hs
    · rw [hwrap]
      exact (ih ht).map wrap
    · rw [hok]
      exact Outcome.failsOnly_ok hint
    · rw [hno]
      exact Outcome.failsOnly_error (Or.inr ⟨_, rfl⟩)

end Source.TypeHint

end Wireform
