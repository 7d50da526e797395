import Wireform.Proofs.Model.Loaded
import Wireform.Proofs.Sensitivity.Walks
import Wireform.Source.Record

/-
  Wireform source text: which shapes get a class. The fuel of the arrangement is never used up, and
  in a sound model the shapes that are listed are those that the roots depend on.
-/

namespace Wireform.Source

open Relation (ReflTransGen)

variable {model : Model}

/-! ## Entries -/

section

variable {s t : Shape} {next : List Shape} {rest : List Pending}

theorem open_mem_map : .open_ s ∈ next.map Pending.open_ ↔ s ∈ next := by simp

theorem close_not_mem_map : .close s ∉ next.map Pending.open_ := by simp

/-- What is to be opened when a shape has been: what it depends on, and what waited behind it. -/
theorem open_mem_opened :
    .open_ t ∈ next.map .open_ ++ .close s :: rest ↔ t ∈ next ∨ .open_ t ∈ rest := by
  simp

theorem close_mem_opened :
    .close t ∈ next.map .open_ ++ .close s :: rest ↔ t = s ∨ .close t ∈ rest := by
  simp

theorem open_mem_cons_close : .open_ t ∈ .close s :: rest ↔ .open_ t ∈ rest := by simp

theorem close_mem_cons_open : .close t ∈ .open_ s :: rest ↔ .close t ∈ rest := by simp

end

/-! ## Runs without a bound -/

/-- An arrangement to its end: the shapes in order, or the error that it stops with. -/
inductive Arranges (model : Model) :
    List String → List Pending → Except AnalysisError (List Shape) → Prop
  | done (seen : List String) : Arranges model seen [] (.ok [])
  | close {seen : List String} (s : Shape) {rest : List Pending}
      {r : Except AnalysisError (List Shape)} (h : Arranges model seen rest r) :
      Arranges model seen (.close s :: rest) (r.map (s :: ·))
  | skip {seen : List String} {s : Shape} {rest : List Pending}
      {r : Except AnalysisError (List Shape)} (hs : s.id ∈ seen) (h : Arranges model seen rest r) :
      Arranges model seen (.open_ s :: rest) r
  | fail {seen : List String} {s : Shape} (rest : List Pending) {e : AnalysisError}
      (hs : s.id ∉ seen) (he : dependencies model s = .error e) :
      Arranges model seen (.open_ s :: rest) (.error e)
  | open_ {seen : List String} {s : Shape} {rest : List Pending} {next : List Shape}
      {r : Except AnalysisError (List Shape)} (hs : s.id ∉ seen)
      (hnext : dependencies model s = .ok next)
      (h : Arranges model (s.id :: seen) (next.map .open_ ++ .close s :: rest) r) :
      Arranges model seen (.open_ s :: rest) r

/-! ## Fuel -/

/-- How many entries a shape makes when it is opened. -/
def openWidth : Node → Nat
  | .shape s => s.members.length + 1
  | .member _ => 0

/-- The shapes that can ever be opened. -/
def openable (model : Model) (roots : List Shape) : List Node := (roots ++ model.shapes).map .shape

theorem dependencies_mem {s : Shape} {next : List Shape} (h : dependencies model s = .ok next) :
    (∀ t ∈ next, t ∈ model.shapes) ∧ next.length ≤ s.members.length := by
  unfold dependencies at h
  split at h
  · cases h
    exact ⟨fun t ht => absurd ht List.not_mem_nil, Nat.zero_le _⟩
  · have hall := Outcome.mapM_eq_ok.mp h
    refine ⟨fun t ht => ?_, Nat.le_of_eq hall.length_eq.symm⟩
    obtain ⟨m, -, hm⟩ := Outcome.exists_of_mem_forall₂ hall ht
    exact Model.mem_shapes_of_get (Model.targetOf_eq_ok.mp hm)

/-- What waits to be opened can be. -/
def Openable (model : Model) (roots : List Shape) (pending : List Pending) : Prop :=
  ∀ s, .open_ s ∈ pending → s ∈ roots ++ model.shapes

/-- With enough fuel an arrangement is never cut short. -/
theorem arranges_arrange {roots : List Shape} {fuel : Nat} {seen : List String}
    {pending : List Pending} (hpending : Openable model roots pending)
    (hfuel : pending.length + Walk.waiting openWidth seen (openable model roots) ≤ fuel) :
    Arranges model seen pending (arrange model fuel seen pending) := by
  induction fuel generalizing seen pending with
  | zero =>
    cases pending with
    | nil => exact .done seen
    | cons x rest =>
      rw [List.length_cons] at hfuel
      omega
  | succ fuel ih =>
    cases pending with
    | nil => exact .done seen
    | cons x rest =>
      rw [List.length_cons] at hfuel
      have hrest : Openable model roots rest := fun s hs => hpending s (List.mem_cons_of_mem x hs)
      cases x with
      | close s =>
        rw [arrange]
        exact .close s (ih hrest (by omega))
      | open_ s =>
        rw [arrange]
        split
        · next hseen =>
          rw [List.contains_eq_mem, decide_eq_true_eq] at hseen
          exact .skip hseen (ih hrest (by omega))
        · next hseen =>
          have hnew : s.id ∉ seen := by simpa using hseen
          rw [Bool.not_eq_true] at hseen
          have hmem : Node.shape s ∈ openable model roots :=
            List.mem_map_of_mem (hpending s List.mem_cons_self)
          have hleave := @Walk.waiting_leave openWidth _ _ _ hmem hseen
          cases hnext : dependencies model s with
          | error e => exact .fail rest hnew hnext
          | ok next =>
            obtain ⟨hshapes, hlength⟩ := dependencies_mem hnext
            have hwidth : openWidth (.shape s) = s.members.length + 1 := rfl
            refine .open_ hnew hnext (ih ?_ ?_)
            · intro t ht
              rcases open_mem_opened.mp ht with ht | ht
              · exact List.mem_append_right _ (hshapes t ht)
              · exact hrest t ht
            · rw [List.length_append, List.length_map, List.length_cons]
              have hid : (Node.shape s).id = s.id := rfl
              rw [hid, hwidth] at hleave
              omega

theorem waiting_openable_le (ss : List Shape) :
    Walk.waiting openWidth [] (ss.map .shape) + ss.length ≤
      (ss.map fun s => s.members.length + 2).foldr (· + ·) 0 := by
  induction ss with
  | nil => exact Nat.le_refl 0
  | cons s ss ih =>
    have hwidth : openWidth (.shape s) = s.members.length + 1 := rfl
    rw [List.map_cons, Walk.waiting, List.contains_nil, if_neg Bool.false_ne_true, hwidth,
      List.length_cons, List.map_cons, List.foldr_cons]
    omega

/-- The arrangement of any roots comes to its end. -/
theorem arranges_roots (model : Model) (roots : List Shape) :
    Arranges model [] (roots.map .open_)
      (arrange model (arrangeFuel model roots) [] (roots.map .open_)) := by
  have hroots : Openable model roots (roots.map .open_) := fun s hs =>
    List.mem_append_left _ (open_mem_map.mp hs)
  refine arranges_arrange hroots ?_
  have hle := waiting_openable_le (roots ++ model.shapes)
  rw [List.length_append] at hle
  unfold openable arrangeFuel
  rw [List.length_map]
  dsimp only
  omega

/-! ## What is listed -/

/-- One shape depends on another. -/
def DependsOn (model : Model) (s t : Shape) : Prop :=
  ∃ next, dependencies model s = .ok next ∧ t ∈ next

/-- The shapes that get a class: the roots, and whatever they depend on. -/
def Reached (model : Model) (roots : List Shape) (s : Shape) : Prop :=
  ∃ root ∈ roots, ReflTransGen (DependsOn model) root s

/-- The id of a shape was opened before, or a shape with it is listed. -/
def Known (seen : List String) (order : List Shape) (s : Shape) : Prop :=
  s.id ∈ seen ∨ ∃ t ∈ order, t.id = s.id

/-- What an arrangement from some entries lists when the ids in `seen` were opened before. -/
structure Lists (model : Model) (seen : List String) (pending : List Pending)
    (order : List Shape) : Prop where
  closed : ∀ s, .close s ∈ pending → s ∈ order
  opened : ∀ s, .open_ s ∈ pending → Known seen order s
  below : ∀ s ∈ order, .close s ∈ pending ∨ ∀ t, DependsOn model s t → Known seen order t
  reached : ∀ s ∈ order, .close s ∈ pending ∨
    ∃ root, .open_ root ∈ pending ∧ ReflTransGen (DependsOn model) root s

namespace Lists

variable {seen : List String} {s : Shape} {rest : List Pending} {order : List Shape}

theorem nil (seen : List String) : Lists model seen [] [] :=
  ⟨fun _ h => absurd h List.not_mem_nil, fun _ h => absurd h List.not_mem_nil,
    fun _ h => absurd h List.not_mem_nil, fun _ h => absurd h List.not_mem_nil⟩

theorem close (h : Lists model seen rest order) :
    Lists model seen (.close s :: rest) (s :: order) := by
  have hkeep : ∀ t, Known seen order t → Known seen (s :: order) t := fun t =>
    Or.imp_right fun ⟨u, hu, hid⟩ => ⟨u, List.mem_cons_of_mem s hu, hid⟩
  refine ⟨fun t ht => ?_, fun t ht => ?_, fun t ht => ?_, fun t ht => ?_⟩
  · rcases List.mem_cons.mp ht with ht | ht
    · cases ht
      exact List.mem_cons_self
    · exact List.mem_cons_of_mem s (h.closed t ht)
  · exact hkeep t (h.opened t (open_mem_cons_close.mp ht))
  · rcases List.mem_cons.mp ht with rfl | ht
    · exact Or.inl List.mem_cons_self
    · exact (h.below t ht).imp (List.mem_cons_of_mem _) fun hall u hu => hkeep u (hall u hu)
  · rcases List.mem_cons.mp ht with rfl | ht
    · exact Or.inl List.mem_cons_self
    · exact (h.reached t ht).imp (List.mem_cons_of_mem _)
        fun ⟨root, hroot, hpath⟩ => ⟨root, List.mem_cons_of_mem _ hroot, hpath⟩

theorem skip (h : Lists model seen rest order) (hs : s.id ∈ seen) :
    Lists model seen (.open_ s :: rest) order := by
  refine ⟨fun t ht => h.closed t (close_mem_cons_open.mp ht), fun t ht => ?_, fun t ht => ?_,
    fun t ht => ?_⟩
  · rcases List.mem_cons.mp ht with ht | ht
    · cases ht
      exact Or.inl hs
    · exact h.opened t ht
  · exact (h.below t ht).imp_left (List.mem_cons_of_mem _)
  · exact (h.reached t ht).imp (List.mem_cons_of_mem _)
      fun ⟨root, hroot, hpath⟩ => ⟨root, List.mem_cons_of_mem _ hroot, hpath⟩

theorem open_ {next : List Shape} (hnext : dependencies model s = .ok next)
    (h : Lists model (s.id :: seen) (next.map .open_ ++ .close s :: rest) order) :
    Lists model seen (.open_ s :: rest) order := by
  have hself : s ∈ order := h.closed s (close_mem_opened.mpr (Or.inl rfl))
  have hkeep : ∀ t, Known (s.id :: seen) order t → Known seen order t := by
    rintro t (ht | ht)
    · rcases List.mem_cons.mp ht with hid | ht
      · exact Or.inr ⟨s, hself, hid.symm⟩
      · exact Or.inl ht
    · exact Or.inr ht
  refine ⟨fun t ht => ?_, fun t ht => ?_, fun t ht => ?_, fun t ht => ?_⟩
  · exact h.closed t (close_mem_opened.mpr (Or.inr (close_mem_cons_open.mp ht)))
  · rcases List.mem_cons.mp ht with ht | ht
    · cases ht
      exact Or.inr ⟨s, hself, rfl⟩
    · exact hkeep t (h.opened t (open_mem_opened.mpr (Or.inr ht)))
  · rcases h.below t ht with hclosed | hall
    · rcases close_mem_opened.mp hclosed with rfl | hclosed
      · refine Or.inr fun u ⟨ks, hks, hu⟩ => hkeep u (h.opened u ?_)
        obtain rfl : next = ks := Except.ok.inj (hnext ▸ hks)
        exact open_mem_opened.mpr (Or.inl hu)
      · exact Or.inl (List.mem_cons_of_mem _ hclosed)
    · exact Or.inr fun u hu => hkeep u (hall u hu)
  · rcases h.reached t ht with hclosed | ⟨root, hroot, hpath⟩
    · rcases close_mem_opened.mp hclosed with rfl | hclosed
      · exact Or.inr ⟨t, List.mem_cons_self, .refl⟩
      · exact Or.inl (List.mem_cons_of_mem _ hclosed)
    · rcases open_mem_opened.mp hroot with hroot | hroot
      · exact Or.inr ⟨s, List.mem_cons_self, hpath.head ⟨next, hnext, hroot⟩⟩
      · exact Or.inr ⟨root, List.mem_cons_of_mem _ hroot, hpath⟩

end Lists

theorem Arranges.lists {seen : List String} {pending : List Pending} {order : List Shape}
    (h : Arranges model seen pending (.ok order)) : Lists model seen pending order := by
  generalize hr : Except.ok order = r at h
  induction h generalizing order with
  | done seen =>
    cases hr
    exact .nil seen
  | close s _ ih =>
    obtain ⟨below, rfl, rfl⟩ := Outcome.map_eq_ok.mp hr.symm
    exact (ih rfl).close
  | skip hs _ ih => exact (ih hr).skip hs
  | fail => cases hr
  | open_ _ hnext _ ih => exact .open_ hnext (ih hr)

/-! ## Sound models -/

theorem exists_dependencies (hsound : model.Sound) {s : Shape} (hs : s ∈ model.shapes) :
    ∃ next, dependencies model s = .ok next := by
  unfold dependencies
  split
  · exact ⟨[], rfl⟩
  · next henum =>
    have hkind : ¬ s.kind.IsEnum := by
      rintro (hkind | hkind) <;> simp [Shape.isEnum, hkind] at henum
    obtain ⟨next, hnext, -⟩ := Outcome.exists_mapM fun m hm => hsound.exists_target hs hkind hm
    exact ⟨next, hnext⟩

theorem DependsOn.mem {s t : Shape} (h : DependsOn model s t) : t ∈ model.shapes := by
  obtain ⟨next, hnext, ht⟩ := h
  exact (dependencies_mem hnext).1 t ht

theorem Reached.mem {roots : List Shape} (hroots : ∀ r ∈ roots, r ∈ model.shapes) {s : Shape}
    (h : Reached model roots s) : s ∈ model.shapes := by
  obtain ⟨root, hroot, hpath⟩ := h
  induction hpath with
  | refl => exact hroots root hroot
  | tail _ hstep _ => exact hstep.mem

theorem Arranges.ne_error (hsound : model.Sound) {seen : List String} {pending : List Pending}
    {r : Except AnalysisError (List Shape)} (h : Arranges model seen pending r)
    (hpending : ∀ s, .open_ s ∈ pending → s ∈ model.shapes) : ∃ order, r = .ok order := by
  induction h with
  | done => exact ⟨[], rfl⟩
  | close s _ ih =>
    obtain ⟨order, rfl⟩ := ih fun t ht => hpending t (List.mem_cons_of_mem _ ht)
    exact ⟨s :: order, rfl⟩
  | skip _ _ ih => exact ih fun t ht => hpending t (List.mem_cons_of_mem _ ht)
  | fail rest _ he =>
    obtain ⟨next, hnext⟩ := exists_dependencies hsound (hpending _ List.mem_cons_self)
    rw [hnext] at he
    cases he
  | open_ _ hnext _ ih =>
    refine ih fun t ht => ?_
    rcases open_mem_opened.mp ht with ht | ht
    · exact (dependencies_mem hnext).1 t ht
    · exact hpending t (List.mem_cons_of_mem _ ht)

/-- What is listed from roots is what they depend on. -/
theorem Lists.mem_iff (hids : model.ids.Nodup) {roots order : List Shape}
    (hroots : ∀ r ∈ roots, r ∈ model.shapes) (h : Lists model [] (roots.map .open_) order)
    {s : Shape} : s ∈ order ↔ Reached model roots s := by
  have hreached : ∀ t ∈ order, Reached model roots t := by
    intro t ht
    obtain ⟨root, hroot, hpath⟩ := (h.reached t ht).resolve_left close_not_mem_map
    exact ⟨root, open_mem_map.mp hroot, hpath⟩
  -- ids tell the shapes of the model apart
  have hknown : ∀ t ∈ model.shapes, Known [] order t → t ∈ order := by
    intro t ht hk
    obtain ⟨u, hu, hid⟩ := hk.resolve_left List.not_mem_nil
    rwa [← List.inj_on_of_nodup_map hids ((hreached u hu).mem hroots) ht hid]
  refine ⟨hreached s, ?_⟩
  rintro ⟨root, hroot, hpath⟩
  induction hpath with
  | refl => exact hknown root (hroots root hroot) (h.opened root (open_mem_map.mpr hroot))
  | tail _ hstep ih =>
    exact hknown _ hstep.mem ((h.below _ ih).resolve_left close_not_mem_map _ hstep)

/-- In a sound model the enums and the data classes that the roots depend on are found. -/
theorem exists_collect (hsound : model.Sound) {roots : List Shape}
    (hroots : ∀ r ∈ roots, r ∈ model.shapes) :
    ∃ enums structs, collect model roots = .ok (enums, structs) ∧
      (∀ s, s ∈ enums ↔ Reached model roots s ∧ s.isEnum = true) ∧
      ∀ s, s ∈ structs ↔ Reached model roots s ∧ s.kind.isAggregate = true := by
  have hrun := arranges_roots model roots
  obtain ⟨order, horder⟩ := hrun.ne_error hsound fun s hs => hroots s (open_mem_map.mp hs)
  rw [horder] at hrun
  have hmem := fun s => hrun.lists.mem_iff hsound.nodup hroots (s := s)
  refine ⟨_, _, Outcome.bind_eq_ok.mpr ⟨order, horder, rfl⟩, fun s => ?_, fun s => ?_⟩
  · rw [List.mem_filter, hmem]
  · rw [List.mem_filter, hmem]

end Wireform.Source
