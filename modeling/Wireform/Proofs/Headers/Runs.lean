import Mathlib.Data.List.Induction
import Mathlib.Data.List.Nodup
import Wireform.Proofs.Headers
import Wireform.Proofs.Text.Case

/-
  Wireform headers: what is there after a run of changes. A field survives if no later step takes
  its name away, and the fields are the survivors in the order in which they came
  (`fields_run`). `run_keeps_survivors` adds what every reader tells of them.
-/

namespace Wireform.Headers

/-- Two spellings of one name. -/
def Alike (m n : String) : Prop := Text.lowered m = Text.lowered n

instance (m n : String) : Decidable (Alike m n) :=
  inferInstanceAs (Decidable (Text.lowered m = Text.lowered n))

/-- One change of the fields. -/
inductive Step where
  | append (name value : String)
  | set (name value : String)
  | remove (name : String)
  deriving DecidableEq, Repr

namespace Step

def name : Step → String
  | append n _ | set n _ | remove n => n

/-- The field that a step puts at the end. -/
def added? : Step → Option (String × String)
  | append n v | set n v => some (n, v)
  | remove _ => none

/-- Whether a step takes away the fields of a name that came before it. -/
def clears (s : Step) (n : String) : Bool :=
  match s with
  | append _ _ => false
  | set m _ | remove m => Alike m n

def apply (h : Headers) : Step → Headers
  | append n v => h.append n v
  | set n v => h.set n v
  | remove n => h.remove n

end Step

/-- The headers after a run of steps. -/
def run (h : Headers) (steps : List Step) : Headers := steps.foldl Step.apply h

/-- The fields that a run adds and that no later step of it takes away. -/
def survivors : List Step → List (String × String)
  | [] => []
  | s :: later => (s.added?.toList.filter fun f => !later.any (·.clears f.1)).map
      (fun f => (Text.lowered f.1, f.2)) ++ survivors later

/-- The steps that add the given fields. -/
def additions (fields : List (String × String)) : List Step := fields.map fun f => .append f.1 f.2

/-! ## Fields -/

/-- All names are in lower case. -/
def IsLowered (h : Headers) : Prop := ∀ f ∈ h.fields, Text.lowered f.1 = f.1

theorem alike_lowered {m n : String} : Alike m (Text.lowered n) ↔ Alike m n := by
  unfold Alike
  rw [Text.lowered_lowered]

theorem clears_lowered (s : Step) (n : String) : s.clears (Text.lowered n) = s.clears n := by
  cases s with
  | append m v => rfl
  | set m v => simp only [Step.clears, alike_lowered]
  | remove m => simp only [Step.clears, alike_lowered]

theorem filter_alike {h : Headers} (hlow : h.IsLowered) (n : String) :
    h.fields.filter (fun f => f.1 ≠ Text.lowered n) =
      h.fields.filter fun f => !decide (Alike n f.1) := by
  refine List.filter_congr fun f hf => ?_
  have hsame : f.1 = Text.lowered n ↔ Alike n f.1 := by
    unfold Alike
    rw [hlow f hf, eq_comm]
  rw [decide_not, decide_eq_decide.mpr hsame]

/-- A step keeps what it does not clear, and puts its field behind that. -/
theorem fields_apply {h : Headers} (hlow : h.IsLowered) (s : Step) :
    (s.apply h).fields = h.fields.filter (fun f => !s.clears f.1) ++
      s.added?.toList.map fun f => (Text.lowered f.1, f.2) := by
  cases s with
  | append n v => exact congrArg (· ++ _) (List.filter_true h.fields).symm
  | set n v => exact congrArg (· ++ _) (filter_alike hlow n)
  | remove n => exact (filter_alike hlow n).trans (List.append_nil _).symm

theorem isLowered_apply {h : Headers} (hlow : h.IsLowered) (s : Step) :
    (s.apply h).IsLowered := by
  intro f hf
  rw [fields_apply hlow] at hf
  rcases List.mem_append.mp hf with hf | hf
  · exact hlow f (List.mem_of_mem_filter hf)
  · obtain ⟨g, -, rfl⟩ := List.mem_map.mp hf
    exact Text.lowered_lowered g.1

theorem isLowered_run {h : Headers} (hlow : h.IsLowered) (steps : List Step) :
    (h.run steps).IsLowered := by
  induction steps generalizing h with
  | nil => exact hlow
  | cons s later ih => exact ih (isLowered_apply hlow s)

/-- After a run there are the fields that it has not cleared, and its survivors. -/
theorem fields_run {h : Headers} (hlow : h.IsLowered) (steps : List Step) :
    (h.run steps).fields =
      h.fields.filter (fun f => !steps.any (·.clears f.1)) ++ survivors steps := by
  induction steps generalizing h with
  | nil => exact (List.filter_true h.fields).symm.trans (List.append_nil _).symm
  | cons s later ih =>
    have hadded : (s.added?.toList.map fun f => (Text.lowered f.1, f.2)).filter
        (fun f => !later.any (·.clears f.1)) =
          (s.added?.toList.filter fun f => !later.any (·.clears f.1)).map
            fun f => (Text.lowered f.1, f.2) := by
      rw [List.filter_map]
      simp only [Function.comp_def, clears_lowered]
    have hkept : (h.fields.filter fun f => !s.clears f.1).filter
        (fun f => !later.any (·.clears f.1)) =
          h.fields.filter fun f => !(s :: later).any (·.clears f.1) := by
      rw [List.filter_filter]
      refine List.filter_congr fun f _ => ?_
      rw [List.any_cons, Bool.not_or, Bool.and_comm]
    show ((s.apply h).run later).fields = _
    rw [ih (isLowered_apply hlow s), fields_apply hlow, List.filter_append, hadded, hkept,
      List.append_assoc]
    rfl

theorem ofList_eq_run (fields : List (String × String)) :
    ofList fields = empty.run (additions fields) := by
  unfold ofList run additions
  rw [List.foldl_map]
  rfl

theorem run_append (h : Headers) (before later : List Step) :
    h.run (before ++ later) = (h.run before).run later := List.foldl_append

theorem isLowered_empty : empty.IsLowered := fun _ hf => absurd hf List.not_mem_nil

theorem ofList_run (init : List (String × String)) (steps : List Step) :
    (ofList init).run steps = empty.run (additions init ++ steps) := by
  rw [ofList_eq_run, run_append]

/-! ## Readers -/

section

variable {h : Headers}

theorem getAll_alike (hlow : h.IsLowered) (n : String) :
    h.getAll n = (h.fields.filter fun f => Alike f.1 n).map (·.2) := by
  unfold getAll
  refine congrArg (List.map _) (List.filter_congr fun f hf => decide_eq_decide.mpr ?_)
  unfold Alike
  rw [hlow f hf]

theorem get?_alike (hlow : h.IsLowered) (n : String) :
    h.get? n = (h.fields.find? fun f => Alike f.1 n).map (·.2) := by
  unfold get?
  rw [getAll_alike hlow, List.head?_map, List.head?_filter]

theorem contains_alike (hlow : h.IsLowered) (n : String) :
    h.contains n = true ↔ ∃ f ∈ h.fields, Alike f.1 n := by
  unfold contains
  rw [List.any_eq_true]
  refine exists_congr fun f => and_congr_right fun hf => ?_
  unfold Alike
  rw [decide_eq_true_eq, hlow f hf]

end

/-- Each element of a list once, in the order of first occurrence. -/
structure FirstsOf (xs firsts : List String) : Prop where
  nodup : firsts.Nodup
  mem : ∀ x, x ∈ firsts ↔ x ∈ xs
  order : firsts.Pairwise fun x y => xs.idxOf x < xs.idxOf y

theorem FirstsOf.concat {xs firsts : List String} (h : FirstsOf xs firsts) (x : String) :
    FirstsOf (xs ++ [x]) (if firsts.contains x then firsts else firsts ++ [x]) := by
  have hindex : ∀ y ∈ firsts, (xs ++ [x]).idxOf y = xs.idxOf y := fun y hy =>
    List.idxOf_append_of_mem ((h.mem y).mp hy)
  have horder : firsts.Pairwise fun y z => (xs ++ [x]).idxOf y < (xs ++ [x]).idxOf z := by
    refine h.order.imp_of_mem fun {y z} hy hz hlt => ?_
    rwa [hindex y hy, hindex z hz]
  by_cases hx : x ∈ firsts
  · rw [if_pos (List.contains_iff_mem.mpr hx)]
    refine ⟨h.nodup, fun y => ?_, horder⟩
    rw [List.mem_append, List.mem_singleton, ← h.mem y]
    exact ⟨Or.inl, fun hy => hy.elim id fun he => he ▸ hx⟩
  · have hnew : x ∉ xs := fun hmem => hx ((h.mem x).mpr hmem)
    rw [if_neg fun hc => hx (List.contains_iff_mem.mp hc)]
    refine ⟨?_, fun y => ?_, ?_⟩
    · rw [← List.concat_eq_append]
      exact h.nodup.concat hx
    · rw [List.mem_append, List.mem_append, h.mem y]
    · refine List.pairwise_append.mpr ⟨horder, List.pairwise_singleton _ _, fun y hy z hz => ?_⟩
      obtain rfl := List.mem_singleton.mp hz
      rw [hindex y hy, List.idxOf_append_of_notMem hnew]
      exact Nat.lt_add_right _ (List.idxOf_lt_length_of_mem ((h.mem y).mp hy))

theorem firstsOf_names (h : Headers) : FirstsOf (h.fields.map (·.1)) h.names := by
  obtain ⟨fields⟩ := h
  induction fields using List.reverseRecOn with
  | nil => exact ⟨List.nodup_nil, fun _ => Iff.rfl, List.Pairwise.nil⟩
  | append_singleton fields f ih =>
    have hnames : names ⟨fields ++ [f]⟩ = if (names ⟨fields⟩).contains f.1 then names ⟨fields⟩
        else names ⟨fields⟩ ++ [f.1] := by
      unfold names
      rw [List.foldl_append]
      rfl
    rw [hnames, List.map_append]
    exact ih.concat f.1

/-! ## Names that a run leaves alone -/

theorem alike_of_clears {s : Step} {n : String} (h : s.clears n = true) : Alike s.name n := by
  cases s with
  | append m v => cases h
  | set m v => exact of_decide_eq_true h
  | remove m => exact of_decide_eq_true h

theorem exists_alike_of_survivor {steps : List Step} {f : String × String}
    (h : f ∈ survivors steps) : ∃ s ∈ steps, Alike s.name f.1 := by
  induction steps with
  | nil => cases h
  | cons s later ih =>
    rcases List.mem_append.mp h with h | h
    · obtain ⟨g, hg, rfl⟩ := List.mem_map.mp h
      have hadded := List.mem_of_mem_filter hg
      refine ⟨s, List.mem_cons_self, ?_⟩
      cases s with
      | append n v =>
        obtain rfl := List.mem_singleton.mp hadded
        exact (Text.lowered_lowered n).symm
      | set n v =>
        obtain rfl := List.mem_singleton.mp hadded
        exact (Text.lowered_lowered n).symm
      | remove n => cases hadded
    · obtain ⟨t, ht, halike⟩ := ih h
      exact ⟨t, List.mem_cons_of_mem s ht, halike⟩

/-- The fields of names that no step is about stay as they are, in their order. -/
theorem untouched_run {h : Headers} (hlow : h.IsLowered) (steps : List Step) :
    (h.run steps).fields.filter (fun f => steps.all fun s => ¬ Alike s.name f.1) =
      h.fields.filter fun f => steps.all fun s => ¬ Alike s.name f.1 := by
  have hnone : (survivors steps).filter (fun f => steps.all fun s => ¬ Alike s.name f.1) = [] := by
    refine List.filter_eq_nil_iff.mpr fun f hf hall => ?_
    obtain ⟨s, hs, halike⟩ := exists_alike_of_survivor hf
    exact of_decide_eq_true (List.all_eq_true.mp hall s hs) halike
  rw [fields_run hlow, List.filter_append, hnone, List.append_nil, List.filter_filter]
  refine List.filter_congr fun f _ => Bool.and_eq_left_iff_imp.mpr fun hall => ?_
  rw [Bool.not_eq_true', List.any_eq_false]
  intro s hs hclears
  exact of_decide_eq_true (List.all_eq_true.mp hall s hs) (alike_of_clears hclears)

/-! ## Whole runs -/

/-- Headers are a multi-map by names in any case: after any run of steps there are the survivors in
the order in which they came, every reader tells of them whatever the spelling, and what is not
touched from there on stays. -/
theorem run_keeps_survivors (init : List (String × String)) (steps : List Step) :
    ((ofList init).run steps).fields = survivors (additions init ++ steps) ∧
    (∀ n, ((ofList init).run steps).getAll n =
        ((survivors (additions init ++ steps)).filter fun f => Alike f.1 n).map (·.2) ∧
      ((ofList init).run steps).get? n =
        ((survivors (additions init ++ steps)).find? fun f => Alike f.1 n).map (·.2) ∧
      (((ofList init).run steps).contains n = true ↔
        ∃ f ∈ survivors (additions init ++ steps), Alike f.1 n)) ∧
    FirstsOf ((survivors (additions init ++ steps)).map (·.1)) ((ofList init).run steps).names ∧
    ∀ later, (((ofList init).run steps).run later).fields.filter
        (fun f => later.all fun s => ¬ Alike s.name f.1) =
      (survivors (additions init ++ steps)).filter
        fun f => later.all fun s => ¬ Alike s.name f.1 := by
  have hlow : ((ofList init).run steps).IsLowered := by
    rw [ofList_run]
    exact isLowered_run isLowered_empty _
  have hfields : ((ofList init).run steps).fields = survivors (additions init ++ steps) := by
    rw [ofList_run, fields_run isLowered_empty]
    rfl
  rw [← hfields]
  exact ⟨rfl, fun n => ⟨getAll_alike hlow n, get?_alike hlow n, contains_alike hlow n⟩,
    firstsOf_names _, untouched_run hlow⟩

end Wireform.Headers
