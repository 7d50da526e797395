import Wireform.Binding.Format
import Wireform.Proofs.Outcome

/-
  Wireform formats: what a rule that succeeds has found. Its text form is that of the element at the
  location, and only a timestamp looks at more than its element.
-/

namespace Wireform.Format

variable {model : Model} {p : Protocol} {l : Location} {m n : Member} {t : Shape}

/-- What the format of a member at a location consists of. -/
structure Ruled (model : Model) (p : Protocol) (l : Location) (m n : Member) (f : Format) :
    Prop where
  text : l.isText = true
  element : elementOf model l m = .ok (n, f.element, f.collection)
  label : f.collection = true → l ≠ .label
  transform : transformOf model p l m n f.element = .ok (f.transform, f.media)
  commaJoin : f.commaJoin = (f.collection && l.isHeader)
  quote : f.quote = ((f.transform = .member || f.transform = .verbatim) && l.isHeader)

theorem ruled_of_rule {f : Format} (h : rule model p l m = .ok f) : ∃ n, Ruled model p l m n f := by
  unfold rule at h
  split at h
  · cases h
  next htext =>
  obtain ⟨⟨n, element, collection⟩, helement, h⟩ := Outcome.bind_eq_ok.mp h
  dsimp only at h
  split at h
  · cases h
  next hlabel =>
  obtain ⟨⟨transform, media⟩, htransform, h⟩ := Outcome.bind_eq_ok.mp h
  cases h
  exact ⟨n, by simpa using htext, helement, by simpa using hlabel, htransform, rfl, rfl⟩

/-- What an element is written as, by its kind. -/
inductive Becomes (model : Model) (p : Protocol) (l : Location) (m : Member) (t : Shape) :
    Transform × Bool → Prop
  | member (henum : t.isEnum = true) (hkind : t.kind ≠ .intEnum) :
      Becomes model p l m t (.member, false)
  | media (hkind : t.kind = .string) (hl : l.isHeader = true) :
      Becomes model p l m t (.base64, true)
  | verbatim (hkind : t.kind = .string) : Becomes model p l m t (.verbatim, false)
  | scalar {k : ScalarKind} (hkind : scalarOf? t.kind = some k) :
      Becomes model p l m t (.scalar k, false)
  | timestamp {f : TimestampFormat} (hkind : t.kind = .timestamp)
      (hf : timestampAt model p l m = .ok f) : Becomes model p l m t (.timestamp f, false)
  | blob (hkind : t.kind = .blob) : Becomes model p l m t (.base64, false)

theorem becomes_of_transformOf {r : Transform × Bool}
    (h : transformOf model p l m n t = .ok r) : Becomes model p l m t r := by
  unfold transformOf at h
  split at h
  · next henum =>
    cases h
    rw [Bool.and_eq_true, decide_eq_true_eq] at henum
    exact .member henum.1 henum.2
  split at h
  · next hkind =>
    cases h
    split
    · next hmedia => exact .media hkind (Bool.and_eq_true_iff.mp hmedia).2
    · exact .verbatim hkind
  split at h
  · next k hkind =>
    cases h
    exact .scalar hkind
  split at h
  · next hkind =>
    obtain ⟨f, hf, h⟩ := Outcome.bind_eq_ok.mp h
    cases h
    exact .timestamp hkind hf
  split at h
  · next hkind =>
    cases h
    exact .blob hkind
  · cases h

theorem transformOf_timestamp (hkind : t.kind = .timestamp) :
    transformOf model p l m n t = (timestampAt model p l m).map fun f => (.timestamp f, false) := by
  unfold transformOf Shape.isEnum
  rw [hkind]
  rfl

/-- Text of a media type is no enum. -/
theorem media_of_rule {f : Format} (h : rule model p l m = .ok f) (hf : f.transform = .member) :
    f.media = false := by
  obtain ⟨n, hruled⟩ := ruled_of_rule h
  have hbecomes := becomes_of_transformOf hruled.transform
  rw [hf] at hbecomes
  generalize f.media = media at hbecomes ⊢
  cases hbecomes
  rfl

end Wireform.Format
