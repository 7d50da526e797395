import Wireform.Headers

/-
  Wireform headers: what one change does to the lines that are there. Setting a field takes away
  every line of its name and puts one at the end; the lines of other names stay, in their order.
-/

namespace Wireform.Headers

variable {h : Headers} {name value : String}

/-- The fields of headers are the given ones under lower-case names. -/
theorem fields_ofList (fields : List (String × String)) :
    (ofList fields).fields = fields.map fun f => (Text.lowered f.1, f.2) := by
  have hfold : ∀ h : Headers, (fields.foldl (fun h f => h.append f.1 f.2) h).fields =
      h.fields ++ fields.map fun f => (Text.lowered f.1, f.2) := by
    induction fields with
    | nil => exact fun h => (List.append_nil _).symm
    | cons f fields ih =>
      intro h
      rw [List.foldl_cons, ih, fields_append, List.append_assoc]
      rfl
  exact hfold .empty

theorem getAll_ofList (fields : List (String × String)) (name : String) :
    (ofList fields).getAll name =
      (fields.filter fun f => Text.lowered f.1 = Text.lowered name).map (·.2) := by
  unfold getAll
  rw [fields_ofList, List.filter_map, List.map_map]
  rfl

theorem contains_eq_false : h.contains name = false ↔ ∀ f ∈ h.fields, f.1 ≠ Text.lowered name := by
  simp [contains]

theorem getAll_append (h : Headers) (name other value : String) :
    (h.append name value).getAll other =
      h.getAll other ++ if Text.lowered name = Text.lowered other then [value] else [] := by
  unfold getAll
  rw [fields_append, List.filter_append, List.map_append]
  by_cases hsame : Text.lowered name = Text.lowered other <;> simp [hsame]

theorem getAll_remove_self (h : Headers) (name : String) : (h.remove name).getAll name = [] := by
  simp [getAll, List.filter_filter]

theorem getAll_remove_of_ne {other : String} (hne : Text.lowered other ≠ Text.lowered name) :
    (h.remove name).getAll other = h.getAll other := by
  unfold getAll
  rw [fields_remove, List.filter_filter]
  refine congrArg (List.map _) (List.filter_congr fun f _ => ?_)
  by_cases hf : f.1 = Text.lowered other
  · simp [hf, hne]
  · simp [hf]

/-- A name that is set has one value. -/
theorem getAll_set_self (h : Headers) (name value : String) :
    (h.set name value).getAll name = [value] := by
  rw [set, getAll_append, getAll_remove_self, if_pos rfl, List.nil_append]

theorem getAll_set_of_ne {other : String} (hne : Text.lowered other ≠ Text.lowered name) :
    (h.set name value).getAll other = h.getAll other := by
  rw [set, getAll_append, getAll_remove_of_ne hne, if_neg hne.symm, List.append_nil]

/-- A line is there as often as its value is among those of its name. -/
theorem count_getAll (h : Headers) (name value : String) :
    (h.getAll name).count value = h.fields.count (Text.lowered name, value) := by
  unfold getAll
  rw [List.count, List.countP_map, List.countP_filter, List.count]
  refine List.countP_congr fun f _ => ?_
  simp [Prod.ext_iff, and_comm]

/-- A name that was not there comes last, and nothing is taken away. -/
theorem fields_set_of_absent (habsent : h.contains name = false) (value : String) :
    (h.set name value).fields = h.fields ++ [(Text.lowered name, value)] := by
  rw [fields_set, List.filter_eq_self.mpr]
  intro f hf
  exact decide_eq_true (contains_eq_false.mp habsent f hf)

/-- Lines of other names stay in their order. -/
theorem sublist_set {lines : List (String × String)} (hsub : lines.Sublist h.fields)
    (hother : ∀ f ∈ lines, f.1 ≠ Text.lowered name) :
    lines.Sublist (h.set name value).fields := by
  have hkept : lines.filter (fun f => f.1 ≠ Text.lowered name) = lines :=
    List.filter_eq_self.mpr fun f hf => decide_eq_true (hother f hf)
  rw [fields_set, ← hkept]
  exact (hsub.filter _).trans (List.sublist_append_left _ _)

end Wireform.Headers
