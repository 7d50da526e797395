import Wireform.Proofs.Generation

/-
  Wireform source text: the order of the classes. A shape is listed when everything that it needs
  has been, where it does not need what leads back to it. A field refers without quotes to enums and
  to the classes before its own, and with quotes to its own class and to later ones.

  The argument is that of finishing times. While a shape is open, whatever stands before its end is
  reached from it, so that at its own end only shapes that lead back to it can still be open.
-/

namespace Wireform.Source

open Relation (ReflTransGen)

variable {model : Model}

/-! ## Shapes that wait -/

def Pending.shape : Pending → Shape
  | .open_ s => s
  | .close s => s

/-- The shape of an entry that waits to be listed. -/
def Pending.closing? : Pending → Option Shape
  | .open_ _ => none
  | .close s => some s

/-- The shapes that are open, the last one first. -/
def closing (pending : List Pending) : List Shape := pending.filterMap Pending.closing?

section

variable {s a : Shape} {next : List Shape} {pending rest : List Pending}

@[simp] theorem closing_nil : closing [] = [] := rfl

@[simp] theorem closing_open : closing (.open_ s :: rest) = closing rest := rfl

@[simp] theorem closing_close : closing (.close s :: rest) = s :: closing rest := rfl

@[simp] theorem closing_map_open : closing (next.map .open_) = [] := by
  induction next with
  | nil => rfl
  | cons t next ih => rwa [List.map_cons, closing_open]

theorem closing_opened :
    closing (next.map .open_ ++ .close s :: rest) = s :: closing rest := by
  unfold closing
  rw [List.filterMap_append]
  exact congrArg (· ++ s :: closing rest) closing_map_open

theorem mem_closing : a ∈ closing pending ↔ .close a ∈ pending := by
  unfold closing
  rw [List.mem_filterMap]
  constructor
  · rintro ⟨x, hx, hclosing⟩
    cases x with
    | open_ t => cases hclosing
    | close t =>
      cases hclosing
      exact hx
  · exact fun h => ⟨.close a, h, rfl⟩

end

/-! ## What a shape needs -/

/-- A shape depends on one that does not lead back to it, and that one leads to another. -/
def Needs (model : Model) (a d : Shape) : Prop :=
  ∃ c, DependsOn model a c ∧ ¬ ReflTransGen (DependsOn model) c a ∧
    ReflTransGen (DependsOn model) c d

theorem not_needs_self {a : Shape} : ¬ Needs model a a := fun ⟨_, _, hback, hpath⟩ => hback hpath

/-- What holds of an arrangement at every step: `done` is listed, the ids in `seen` were opened,
and `pending` waits. -/
structure Finishing (model : Model) (done : List Shape) (seen : List String)
    (pending : List Pending) : Prop where
  listed : ∀ s ∈ done, s ∈ model.shapes
  waiting : ∀ x ∈ pending, x.shape ∈ model.shapes
  nodup : ((done ++ closing pending).map Shape.id).Nodup
  seen : ∀ id, id ∈ seen ↔ id ∈ (done ++ closing pending).map Shape.id
  nested : pending.Pairwise fun x y => ∀ a, y = .close a → ReflTransGen (DependsOn model) a x.shape
  before : ∀ a c, .close a ∈ pending → DependsOn model a c →
    c ∈ done ∨ .close c ∈ pending ∨ [.open_ c, .close a].Sublist pending
  below : ∀ a ∈ done, ∀ c, DependsOn model a c → c ∈ done ∨ .close c ∈ pending
  settled : ∀ a ∈ done, ∀ d, Needs model a d → d ∈ done
  ordered : done.Pairwise fun a d => ¬ Needs model a d

namespace Finishing

variable {done : List Shape} {seen : List String} {s : Shape} {rest : List Pending}

/-- At the end of a shape, whatever is open leads to it. -/
theorem reaches_of_open (h : Finishing model done seen (.close s :: rest)) {a : Shape}
    (ha : .close a ∈ Pending.close s :: rest) : ReflTransGen (DependsOn model) a s := by
  rcases List.mem_cons.mp ha with ha | ha
  · cases ha
    exact .refl
  · exact (List.pairwise_cons.mp h.nested).1 _ ha a rfl

/-- At the end of a shape, what it depends on is listed or open. -/
theorem listed_or_open (h : Finishing model done seen (.close s :: rest)) {c : Shape}
    (hc : DependsOn model s c) : c ∈ done ∨ .close c ∈ Pending.close s :: rest := by
  rcases h.before s c List.mem_cons_self hc with hdone | hopen | hsub
  · exact Or.inl hdone
  · exact Or.inr hopen
  · -- the shape would have a second end
    exfalso
    cases hsub with
    | cons _ hsub =>
      have hagain : s ∈ closing rest :=
        mem_closing.mpr (hsub.subset (List.mem_cons_of_mem _ List.mem_cons_self))
      have hnodup := List.Nodup.of_map _ h.nodup
      rw [closing_close] at hnodup
      exact (List.nodup_cons.mp (List.nodup_append.mp hnodup).2.1).1 hagain

/-- At the end of a shape, everything that it needs is listed. -/
theorem needed_mem (h : Finishing model done seen (.close s :: rest)) {d : Shape}
    (hd : Needs model s d) : d ∈ done := by
  obtain ⟨c, hsc, hback, hpath⟩ := hd
  induction hpath with
  | refl =>
    exact (h.listed_or_open hsc).resolve_right fun hopen => hback (h.reaches_of_open hopen)
  | tail hpath hstep ih =>
    exact (h.below _ ih _ hstep).resolve_right fun hopen =>
      hback ((hpath.tail hstep).trans (h.reaches_of_open hopen))

theorem close (h : Finishing model done seen (.close s :: rest)) :
    Finishing model (done ++ [s]) seen rest := by
  have hsame : done ++ closing (.close s :: rest) = done ++ [s] ++ closing rest := by simp
  have hnodup := hsame ▸ h.nodup
  have hnew : s ∉ done := fun hs =>
    (List.nodup_append.mp (List.Nodup.of_map _ h.nodup)).2.2 s hs s (by simp) rfl
  have hmoved : ∀ {c}, .close c ∈ Pending.close s :: rest →
      c ∈ done ++ [s] ∨ .close c ∈ rest := by
    intro c hc
    rcases List.mem_cons.mp hc with hc | hc
    · cases hc
      exact Or.inl (List.mem_append_right _ List.mem_cons_self)
    · exact Or.inr hc
  have hkept : ∀ {c}, c ∈ done ∨ .close c ∈ Pending.close s :: rest →
      c ∈ done ++ [s] ∨ .close c ∈ rest := fun hc =>
    hc.elim (fun hdone => Or.inl (List.mem_append_left _ hdone)) hmoved
  refine ⟨fun t ht => ?_, fun x hx => h.waiting x (List.mem_cons_of_mem _ hx), hnodup,
    hsame ▸ h.seen, (List.pairwise_cons.mp h.nested).2, fun a c ha hac => ?_,
    fun a ha c hac => ?_, fun a ha d hd => ?_, ?_⟩
  · rcases List.mem_append.mp ht with ht | ht
    · exact h.listed t ht
    · obtain rfl := List.mem_singleton.mp ht
      exact h.waiting (.close t) List.mem_cons_self
  · rcases h.before a c (List.mem_cons_of_mem _ ha) hac with hc | hc | hc
    · exact Or.inl (List.mem_append_left _ hc)
    · exact (hmoved hc).imp_right Or.inl
    · cases hc with
      | cons _ hc => exact Or.inr (Or.inr hc)
  · rcases List.mem_append.mp ha with ha | ha
    · exact hkept (h.below a ha c hac)
    · obtain rfl := List.mem_singleton.mp ha
      exact hkept (h.listed_or_open hac)
  · refine List.mem_append_left _ ?_
    rcases List.mem_append.mp ha with ha | ha
    · exact h.settled a ha d hd
    · obtain rfl := List.mem_singleton.mp ha
      exact h.needed_mem hd
  · refine List.pairwise_append.mpr ⟨h.ordered, List.pairwise_singleton _ _, fun a ha d hd => ?_⟩
    obtain rfl := List.mem_singleton.mp hd
    exact fun hneeds => hnew (h.settled a ha _ hneeds)

/-- An id that was opened before belongs to a shape that is listed or open. -/
theorem mem_of_seen (hids : model.ids.Nodup) {pending : List Pending}
    (h : Finishing model done seen pending) (hs : s ∈ model.shapes) (hseen : s.id ∈ seen) :
    s ∈ done ∨ .close s ∈ pending := by
  obtain ⟨t, ht, hid⟩ := List.mem_map.mp ((h.seen s.id).mp hseen)
  have hplace : t ∈ done ∨ .close t ∈ pending :=
    (List.mem_append.mp ht).imp_right mem_closing.mp
  have hmem : t ∈ model.shapes := hplace.elim (h.listed t) (h.waiting (.close t))
  rwa [List.inj_on_of_nodup_map hids hmem hs hid] at hplace

theorem skip (hids : model.ids.Nodup) (h : Finishing model done seen (.open_ s :: rest))
    (hs : s.id ∈ seen) : Finishing model done seen rest := by
  have hplace : s ∈ done ∨ .close s ∈ rest :=
    (h.mem_of_seen hids (h.waiting (.open_ s) List.mem_cons_self) hs).imp_right
      close_mem_cons_open.mp
  refine ⟨h.listed, fun x hx => h.waiting x (List.mem_cons_of_mem _ hx), h.nodup, h.seen,
    (List.pairwise_cons.mp h.nested).2, fun a c ha hac => ?_, fun a ha c hac => ?_, h.settled,
    h.ordered⟩
  · rcases h.before a c (List.mem_cons_of_mem _ ha) hac with hc | hc | hc
    · exact Or.inl hc
    · exact Or.inr (Or.inl (close_mem_cons_open.mp hc))
    · cases hc with
      | cons _ hc => exact Or.inr (Or.inr hc)
      | cons_cons _ _ => exact hplace.imp_right Or.inl
  · exact (h.below a ha c hac).imp_right close_mem_cons_open.mp

theorem open_ {next : List Shape} (h : Finishing model done seen (.open_ s :: rest))
    (hs : s.id ∉ seen) (hnext : dependencies model s = .ok next) :
    Finishing model done (s.id :: seen) (next.map .open_ ++ .close s :: rest) := by
  have hdepends : ∀ t, DependsOn model s t ↔ t ∈ next := by
    intro t
    constructor
    · rintro ⟨ks, hks, ht⟩
      cases hnext.symm.trans hks
      exact ht
    · exact fun ht => ⟨next, hnext, ht⟩
  have hmiddle : (done ++ s :: closing rest).Perm (s :: (done ++ closing rest)) :=
    List.perm_middle
  have hkept {c : Shape} (hc : .close c ∈ Pending.open_ s :: rest) :
      .close c ∈ next.map Pending.open_ ++ .close s :: rest :=
    close_mem_opened.mpr (Or.inr (close_mem_cons_open.mp hc))
  obtain ⟨hself, hrest⟩ := List.pairwise_cons.mp h.nested
  refine ⟨h.listed, fun x hx => ?_, ?_, fun id => ?_, ?_, fun a c ha hac => ?_,
    fun a ha c hac => (h.below a ha c hac).imp_right hkept, h.settled, h.ordered⟩
  · rcases List.mem_append.mp hx with hx | hx
    · obtain ⟨t, ht, rfl⟩ := List.mem_map.mp hx
      exact (dependencies_mem hnext).1 t ht
    · rcases List.mem_cons.mp hx with rfl | hx
      · exact h.waiting (.open_ s) List.mem_cons_self
      · exact h.waiting x (List.mem_cons_of_mem _ hx)
  · rw [closing_opened, (hmiddle.map _).nodup_iff, List.map_cons]
    exact List.nodup_cons.mpr ⟨mt (h.seen s.id).mpr hs, h.nodup⟩
  · rw [closing_opened, (hmiddle.map _).mem_iff, List.map_cons, List.mem_cons, List.mem_cons,
      h.seen, closing_open]
  · refine List.pairwise_append.mpr ⟨?_, List.pairwise_cons.mpr ⟨hself, hrest⟩, ?_⟩
    · exact List.pairwise_map.mpr (List.pairwise_of_forall fun _ _ a ha => by cases ha)
    · rintro x hx y hy a rfl
      obtain ⟨t, ht, rfl⟩ := List.mem_map.mp hx
      have hstep : DependsOn model s t := (hdepends t).mpr ht
      rcases List.mem_cons.mp hy with hy | hy
      · cases hy
        exact .single hstep
      · exact (hself _ hy a rfl).tail hstep
  · rcases close_mem_opened.mp ha with rfl | ha
    · have hsub := (List.singleton_sublist.mpr
        (List.mem_map_of_mem (f := Pending.open_) ((hdepends c).mp hac))).append
        (List.singleton_sublist.mpr (List.mem_cons_self (a := Pending.close a) (l := rest)))
      exact Or.inr (Or.inr hsub)
    · rcases h.before a c (List.mem_cons_of_mem _ ha) hac with hc | hc | hc
      · exact Or.inl hc
      · exact Or.inr (Or.inl (hkept hc))
      · cases hc with
        | cons _ hc =>
          have hsub := (hc.trans (List.sublist_cons_self _ _)).trans
            (List.sublist_append_right (next.map Pending.open_) (.close s :: rest))
          exact Or.inr (Or.inr hsub)
        | cons_cons _ _ => exact Or.inr (Or.inl (close_mem_opened.mpr (Or.inl rfl)))

end Finishing

/-- An arrangement goes on with the shapes that are listed, and ends with nothing that waits. -/
theorem Arranges.finishing (hids : model.ids.Nodup) {seen : List String} {pending : List Pending}
    {order : List Shape} (h : Arranges model seen pending (.ok order)) {done : List Shape}
    (hstart : Finishing model done seen pending) :
    ∃ seen', Finishing model (done ++ order) seen' [] := by
  generalize hr : Except.ok order = r at h
  induction h generalizing done order with
  | done seen =>
    cases hr
    rw [List.append_nil]
    exact ⟨seen, hstart⟩
  | close s _ ih =>
    obtain ⟨below, rfl, rfl⟩ := Outcome.map_eq_ok.mp hr.symm
    rw [List.append_cons]
    exact ih hstart.close rfl
  | skip hs _ ih => exact ih (hstart.skip hids hs) hr
  | fail => cases hr
  | open_ hs hnext _ ih => exact ih (hstart.open_ hs hnext) hr

theorem finishing_start {roots : List Shape} (hroots : ∀ r ∈ roots, r ∈ model.shapes) :
    Finishing model [] [] (roots.map .open_) := by
  refine ⟨fun _ h => absurd h List.not_mem_nil, fun x hx => ?_, by simp, by simp, ?_,
    fun a c ha => absurd ha close_not_mem_map, fun _ h => absurd h List.not_mem_nil,
    fun _ h => absurd h List.not_mem_nil, .nil⟩
  · obtain ⟨r, hr, rfl⟩ := List.mem_map.mp hx
    exact hroots r hr
  · exact List.pairwise_map.mpr (List.pairwise_of_forall fun _ _ a ha => by cases ha)

/-- The shapes that are listed are listed once, and none of them needs a later one. -/
theorem exists_order (hsound : model.Sound) {roots : List Shape}
    (hroots : ∀ r ∈ roots, r ∈ model.shapes) :
    ∃ order, arrange model (arrangeFuel model roots) [] (roots.map .open_) = .ok order ∧
      (∀ s, s ∈ order ↔ Reached model roots s) ∧ (order.map Shape.id).Nodup ∧
      order.Pairwise fun a d => ¬ Needs model a d := by
  have hrun := arranges_roots model roots
  obtain ⟨order, horder⟩ := hrun.ne_error hsound fun s hs => hroots s (open_mem_map.mp hs)
  rw [horder] at hrun
  obtain ⟨_, hend⟩ := hrun.finishing hsound.nodup (finishing_start hroots)
  have hnodup := hend.nodup
  rw [List.nil_append, closing_nil, List.append_nil] at hnodup
  exact ⟨order, horder, fun s => hrun.lists.mem_iff hsound.nodup hroots, hnodup, hend.ordered⟩

/-! ## References -/

/-- What the lists and dictionaries of a hint hold in the end. -/
def TypeHint.core : TypeHint → TypeHint
  | .list a => a.core
  | .dict a => a.core
  | a => a

/-- A class stands in quotes if it is one of data that is not defined. -/
theorem TypeHint.ofClass_cases {ids : List String} (u : Shape) :
    ofClass (some ids) u = .forward (classOf u) ∧ u.kind.isAggregate = true ∧ u.id ∉ ids ∨
      ofClass (some ids) u = .class_ (classOf u) ∧ (u.kind.isAggregate = true → u.id ∈ ids) := by
  unfold ofClass
  split
  · next hlater =>
    simp only [Option.any_some, Bool.and_eq_true, Bool.not_eq_true', List.contains_eq_mem,
      decide_eq_false_iff_not] at hlater
    exact Or.inl ⟨rfl, hlater⟩
  · next hearlier =>
    simp only [Option.any_some, Bool.and_eq_true, Bool.not_eq_true', List.contains_eq_mem,
      decide_eq_false_iff_not, not_and, not_not] at hearlier
    exact Or.inr ⟨rfl, hearlier⟩

/-- The hint of a shape ends in one of its own: that of the class of what the shape holds, or one
of the language. -/
theorem TypeHint.core_of_ofShapeWithin {defined : Option (List String)} {fuel : Nat} {s : Shape}
    {hint : TypeHint} (h : ofShapeWithin model defined fuel s = .ok hint) :
    ∃ u, ReflTransGen model.HoldsValues s u ∧ ((∃ name, hint.core = .builtin name) ∨
      (u.isEnum || u.kind.isAggregate) = true ∧ hint.core = ofClass defined u) := by
  induction fuel generalizing s hint with
  | zero => cases h
  | succ fuel ih =>
    rw [ofShapeWithin] at h
    split at h
    · cases h
      exact ⟨s, .refl, Or.inl ⟨_, rfl⟩⟩
    split at h
    · cases h
      exact ⟨s, .refl, Or.inl ⟨_, rfl⟩⟩
    split at h
    · next hclass =>
      cases h
      refine ⟨s, .refl, Or.inr ⟨hclass, ?_⟩⟩
      unfold ofClass
      split <;> rfl
    split at h
    · next hkind =>
      obtain ⟨t, ht, h⟩ := Outcome.bind_eq_ok.mp h
      obtain ⟨below, hbelow, h⟩ := Outcome.bind_eq_ok.mp h
      cases h
      obtain ⟨u, hpath, hu⟩ := ih hbelow
      exact ⟨u, hpath.head ⟨Or.inl hkind, lift_eq_ok.mp ht⟩, hu⟩
    split at h
    · next hkind =>
      obtain ⟨t, ht, h⟩ := Outcome.bind_eq_ok.mp h
      obtain ⟨below, hbelow, h⟩ := Outcome.bind_eq_ok.mp h
      cases h
      obtain ⟨u, hpath, hu⟩ := ih hbelow
      exact ⟨u, hpath.head ⟨Or.inr hkind, lift_eq_ok.mp ht⟩, hu⟩
    split at h
    · cases h
      exact ⟨s, .refl, Or.inl ⟨_, rfl⟩⟩
    · cases h

/-- A member refers to a class through lists, sets and maps. Its hint has the class without quotes
if it is an enum or stands in `front`, and with quotes if it stands in `later`. -/
def RefersInOrder (model : Model) (enums front later : List Shape) (m : Member) (f : Field) :
    Prop :=
  ∃ t u, model.targetOf m = .ok t ∧ ReflTransGen model.HoldsValues t u ∧
    (∀ name, f.hint.core = .class_ name → name = classOf u ∧ u ∈ enums ++ front) ∧
    ∀ name, f.hint.core = .forward name → name = classOf u ∧ u ∈ later

section

variable {p : Protocol} {s t : Shape} {m : Member}

theorem isEnum_of_isAggregate (h : s.kind.isAggregate = true) : s.isEnum = false := by
  have hkind : s.kind = .struct ∨ s.kind = .union := by simpa [ShapeKind.isAggregate] using h
  unfold Shape.isEnum
  rcases hkind with hkind | hkind <;> rw [hkind] <;> rfl

/-- Whatever is not an enum depends on the targets of its members. -/
theorem dependsOn_target (hsound : model.Sound) (hs : s ∈ model.shapes) (henum : s.isEnum = false)
    (hm : m ∈ s.members) (ht : model.targetOf m = .ok t) : DependsOn model s t := by
  obtain ⟨next, hnext⟩ := exists_dependencies hsound hs
  refine ⟨next, hnext, ?_⟩
  unfold dependencies at hnext
  rw [if_neg (by simp [henum])] at hnext
  obtain ⟨u, hu, hmu⟩ := Outcome.exists_of_mem_mapM hnext hm
  cases ht.symm.trans hmu
  exact hu

theorem dependsOn_of_holdsValues (hsound : model.Sound) (hs : s ∈ model.shapes)
    (h : model.HoldsValues s t) : DependsOn model s t := by
  refine dependsOn_target hsound hs ?_ (hsound.element_mem hs h.1) h.2
  have hkind : s.kind = .list ∨ s.kind = .set ∨ s.kind = .map := by
    simpa [ShapeKind.Holds, ShapeKind.isCollection, or_assoc] using h.1
  unfold Shape.isEnum
  rcases hkind with hkind | hkind | hkind <;> rw [hkind] <;> rfl

theorem reaches_of_holdsValues (hsound : model.Sound) (hs : s ∈ model.shapes)
    (h : ReflTransGen model.HoldsValues s t) :
    t ∈ model.shapes ∧ ReflTransGen (DependsOn model) s t := by
  induction h with
  | refl => exact ⟨hs, .refl⟩
  | tail _ hstep ih =>
    exact ⟨hstep.mem, ih.2.tail (dependsOn_of_holdsValues hsound ih.1 hstep)⟩

theorem parts_of_dataClass {defined : List String} {c : DataClass}
    (h : DataClass.ofShape model p defined s = .ok c) : c.name = classOf s ∧
      List.Forall₂ (fun m f => Field.ofMember model p defined m = .ok f) s.members c.fields := by
  obtain ⟨fields, hfields, h⟩ := Outcome.bind_eq_ok.mp h
  rw [← Except.ok.inj h]
  dsimp only
  exact ⟨rfl, Outcome.mapM_eq_ok.mp hfields⟩

/-- What holds of every class that can be written holds of the classes that are. -/
theorem forall₂_of_dataClasses {r : Shape → DataClass → Prop}
    (hclass : ∀ {defined s c}, DataClass.ofShape model p defined s = .ok c → r s c)
    {structs : List Shape} {defined : List String} {classes : List DataClass}
    (h : dataClasses model p defined structs = .ok classes) : List.Forall₂ r structs classes := by
  induction structs generalizing defined classes with
  | nil =>
    cases h
    exact .nil
  | cons s structs ih =>
    obtain ⟨c, hc, h⟩ := Outcome.bind_eq_ok.mp h
    obtain ⟨below, hbelow, h⟩ := Outcome.bind_eq_ok.mp h
    cases h
    exact .cons (hclass hc) (ih hbelow)

/-- The class behind some shapes is written where the ids of these are defined. -/
theorem exists_dataClass_at {front back : List Shape} {a : Shape} {defined : List String}
    {classes : List DataClass} (h : dataClasses model p defined (front ++ a :: back) = .ok classes) :
    ∃ c, classes[front.length]? = some c ∧
      DataClass.ofShape model p ((front.map Shape.id).reverse ++ defined) a = .ok c := by
  induction front generalizing defined classes with
  | nil =>
    obtain ⟨c, hc, h⟩ := Outcome.bind_eq_ok.mp h
    obtain ⟨below, -, h⟩ := Outcome.bind_eq_ok.mp h
    cases h
    exact ⟨c, rfl, hc⟩
  | cons s front ih =>
    obtain ⟨_, -, h⟩ := Outcome.bind_eq_ok.mp h
    obtain ⟨below, hbelow, h⟩ := Outcome.bind_eq_ok.mp h
    cases h
    obtain ⟨c, hplace, hc⟩ := ih hbelow
    refine ⟨c, hplace, ?_⟩
    rwa [List.map_cons, List.reverse_cons, List.append_assoc]

theorem refersInOrder_of_ofMember (hsound : model.Sound) {roots enums structs : List Shape}
    (hroots : ∀ r ∈ roots, r ∈ model.shapes)
    (henums : ∀ s, s ∈ enums ↔ Reached model roots s ∧ s.isEnum = true)
    (hstructs : ∀ s, s ∈ structs ↔ Reached model roots s ∧ s.kind.isAggregate = true)
    {front back : List Shape} {a : Shape} (hplace : structs = front ++ a :: back)
    (hm : m ∈ a.members) {f : Field}
    (hf : Field.ofMember model p ((front.map Shape.id).reverse ++ []) m = .ok f) :
    RefersInOrder model enums front (a :: back) m f := by
  have ha : a ∈ structs := hplace ▸ List.mem_append_right _ List.mem_cons_self
  obtain ⟨hreached, haggregate⟩ := (hstructs a).mp ha
  have hmem := hreached.mem hroots
  obtain ⟨t, ht, hf⟩ := Outcome.bind_eq_ok.mp hf
  obtain ⟨hint, hhint, hf⟩ := Outcome.bind_eq_ok.mp hf
  obtain ⟨config, -, hf⟩ := Outcome.bind_eq_ok.mp hf
  obtain rfl : ⟨fieldOf m, hint, config⟩ = f := Except.ok.inj hf
  have htarget := lift_eq_ok.mp ht
  have hstep := dependsOn_target hsound hmem (isEnum_of_isAggregate haggregate) hm htarget
  obtain ⟨u, hpath, hcore⟩ := TypeHint.core_of_ofShapeWithin hhint
  refine ⟨t, u, htarget, hpath, ?_⟩
  dsimp only
  rcases hcore with ⟨name, hcore⟩ | ⟨hclass, hcore⟩
  · rw [hcore]
    refine ⟨fun _ h => ?_, fun _ h => ?_⟩
    all_goals cases h
  have hu : Reached model roots u := by
    obtain ⟨root, hroot, hroute⟩ := hreached
    exact ⟨root, hroot,
      (hroute.tail hstep).trans (reaches_of_holdsValues hsound hstep.mem hpath).2⟩
  -- the defined ids are those of the classes in front
  have hdefined : u.id ∈ (front.map Shape.id).reverse ++ [] ↔ u ∈ front := by
    rw [List.append_nil, List.mem_reverse, List.mem_map]
    refine ⟨fun ⟨v, hv, hid⟩ => ?_, fun hu => ⟨u, hu, rfl⟩⟩
    have hlisted := ((hstructs v).mp (hplace ▸ List.mem_append_left _ hv)).1.mem hroots
    rwa [← List.inj_on_of_nodup_map hsound.nodup hlisted (hu.mem hroots) hid]
  rw [hcore]
  rcases TypeHint.ofClass_cases u with ⟨hhint, haggregate, hlater⟩ | ⟨hhint, hearlier⟩
  · rw [hhint]
    refine ⟨fun _ h => (by cases h), fun name h => ⟨(TypeHint.forward.inj h).symm, ?_⟩⟩
    have hlisted : u ∈ structs := (hstructs u).mpr ⟨hu, haggregate⟩
    exact (List.mem_append.mp (hplace ▸ hlisted)).resolve_left (mt hdefined.mpr hlater)
  · rw [hhint]
    refine ⟨fun name h => ⟨(TypeHint.class_.inj h).symm, ?_⟩, fun _ h => (by cases h)⟩
    rcases (Bool.or_eq_true _ _).mp hclass with henum | haggregate
    · exact List.mem_append_left _ ((henums u).mpr ⟨hu, henum⟩)
    · exact List.mem_append_right _ (hdefined.mp (hearlier haggregate))

end

/-! ## Classes in order -/

/-- The enums and data classes of roots: each once, what a class needs in front of it, and what is
not in front of it in quotes. -/
structure InOrder (model : Model) (roots enums structs : List Shape) : Prop where
  enums_iff : ∀ s, s ∈ enums ↔ Reached model roots s ∧ s.isEnum = true
  structs_iff : ∀ s, s ∈ structs ↔ Reached model roots s ∧ s.kind.isAggregate = true
  once : ((enums ++ structs).map Shape.id).Nodup
  needed : ∀ front a back, structs = front ++ a :: back →
    ∀ d ∈ structs, Needs model a d → d ∈ front
  quoted : ∀ p classes, dataClasses model p [] structs = .ok classes →
    ∀ front a back, structs = front ++ a :: back →
      ∃ c, classes[front.length]? = some c ∧ c.name = classOf a ∧
        List.Forall₂ (RefersInOrder model enums front (a :: back)) a.members c.fields

/-- No shape is collected twice. -/
theorem collected_once (hsound : model.Sound) {roots enums structs : List Shape}
    (hroots : ∀ r ∈ roots, r ∈ model.shapes)
    (h : collect model roots = .ok (enums, structs)) :
    ((enums ++ structs).map Shape.id).Nodup := by
  obtain ⟨order, horder, -, hnodup, -⟩ := exists_order hsound hroots
  obtain ⟨order', horder', h⟩ := Outcome.bind_eq_ok.mp h
  cases horder.symm.trans horder'
  cases h
  rw [List.map_append]
  refine List.nodup_append.mpr ⟨(List.filter_sublist.map _).nodup hnodup,
    (List.filter_sublist.map _).nodup hnodup, ?_⟩
  rintro id hid _ hid' rfl
  obtain ⟨s, hs, rfl⟩ := List.mem_map.mp hid
  obtain ⟨t, ht, hsame⟩ := List.mem_map.mp hid'
  obtain ⟨hs, henum⟩ := List.mem_filter.mp hs
  obtain ⟨ht, haggregate⟩ := List.mem_filter.mp ht
  rw [List.inj_on_of_nodup_map hnodup ht hs hsame] at haggregate
  rw [isEnum_of_isAggregate haggregate] at henum
  cases henum

/-- What the roots of a sound model lead to is found, and it is found in order. -/
theorem collect_inOrder (hsound : model.Sound) {roots : List Shape}
    (hroots : ∀ r ∈ roots, r ∈ model.shapes) :
    ∃ enums structs, collect model roots = .ok (enums, structs) ∧
      InOrder model roots enums structs := by
  obtain ⟨order, horder, hmem, -, hordered⟩ := exists_order hsound hroots
  have henums : ∀ s, s ∈ order.filter Shape.isEnum ↔ Reached model roots s ∧ s.isEnum = true := by
    intro s
    rw [List.mem_filter, hmem]
  have hstructs : ∀ s, s ∈ order.filter (fun s => s.kind.isAggregate) ↔
      Reached model roots s ∧ s.kind.isAggregate = true := by
    intro s
    rw [List.mem_filter, hmem]
  have hcollect : collect model roots = .ok (order.filter Shape.isEnum,
      order.filter fun s => s.kind.isAggregate) := Outcome.bind_eq_ok.mpr ⟨order, horder, rfl⟩
  refine ⟨_, _, hcollect, henums, hstructs, collected_once hsound hroots hcollect, ?_, ?_⟩
  · intro front a back hplace d hd hneeds
    have hlater := hordered.filter fun s => s.kind.isAggregate
    rw [hplace, List.pairwise_append, List.pairwise_cons] at hlater
    rcases List.mem_append.mp (hplace ▸ hd) with hd | hd
    · exact hd
    rcases List.mem_cons.mp hd with rfl | hd
    · exact absurd hneeds not_needs_self
    · exact absurd hneeds (hlater.2.1.1 d hd)
  · intro p classes hclasses front a back hplace
    rw [hplace] at hclasses
    obtain ⟨c, hc, hwritten⟩ := exists_dataClass_at hclasses
    obtain ⟨hname, hfields⟩ := parts_of_dataClass hwritten
    have hall := (List.forall₂_and_left _ _).mpr ⟨fun m hm => hm, hfields⟩
    exact ⟨c, hc, hname, hall.imp fun m f hf =>
      refersInOrder_of_ofMember hsound hroots henums hstructs hplace hf.1 hf.2⟩

/-- Two structures that refer to each other, one of them also to a third. -/
def circleDocument : Json :=
  let pair : Json := .map [("type", .text "structure"),
    ("members", .map [("back", reference "ns#Back"), ("leaf", reference "ns#Leaf")])]
  let back : Json := .map [("type", .text "structure"),
    ("members", .map [("pair", reference "ns#Pair")])]
  let leaf : Json := .map [("type", .text "structure"), ("members", .map [])]
  apiDocument (reference "ns#Pair") [("ns#Pair", pair), ("ns#Back", back), ("ns#Leaf", leaf)]

/-- The class that is written first has the other one in quotes. -/
theorem circle_inOrder : ∃ (model : Model) (root : Shape) (enums structs : List Shape)
    (classes : List DataClass), Model.load circleDocument.compact = .ok model ∧
    model.lookup "ns#In" = .ok root ∧ collect model [root] = .ok (enums, structs) ∧
    InOrder model [root] enums structs ∧ dataClasses model restJson [] structs = .ok classes ∧
    classes.map (fun c => (c.name, c.fields.map Field.hint)) =
      [("Back", [.forward "Pair"]), ("Leaf", []), ("Pair", [.class_ "Back", .class_ "Leaf"]),
        ("In", [.class_ "Pair"])] := by
  have hload := Model.load_compact (j := circleDocument) (by decide +kernel)
  have hrun : Outcome.passes (fun model => Outcome.passes (fun root => Outcome.passes
      (fun found => Outcome.passes (fun classes =>
        classes.map (fun c => (c.name, c.fields.map Field.hint)) = [("Back", [.forward "Pair"]),
          ("Leaf", []), ("Pair", [.class_ "Back", .class_ "Leaf"]), ("In", [.class_ "Pair"])])
        (dataClasses model restJson [] found.2)) (collect model [root])) (model.lookup "ns#In"))
      (Loader.modelOf circleDocument) = true := by
    decide +kernel
  obtain ⟨model, hmodel, hrun⟩ := Outcome.exists_of_passes hrun
  obtain ⟨root, hroot, hrun⟩ := Outcome.exists_of_passes hrun
  obtain ⟨⟨enums, structs⟩, hcollect, hrun⟩ := Outcome.exists_of_passes hrun
  obtain ⟨classes, hclasses, hrun⟩ := Outcome.exists_of_passes hrun
  have hload := hload.trans hmodel
  have hroots : ∀ r ∈ [root], r ∈ model.shapes := List.forall_mem_singleton.mpr
    (Model.mem_shapes_of_get (Outcome.mapError_eq_ok.mp hroot))
  obtain ⟨_, _, hcollect', horder⟩ := collect_inOrder (Model.load_sound hload) hroots
  cases hcollect.symm.trans hcollect'
  exact ⟨model, root, enums, structs, classes, hload, hroot, hcollect, horder, hclasses,
    of_decide_eq_true hrun⟩

/-! ## References that are not in order -/

/-- Whether a class always stands behind those that it refers to and that do not lead back to it. -/
def OrderedBy (refers : Model → Shape → Shape → Prop) : Prop :=
  ∀ (text : String) (model : Model), Model.load text = .ok model →
    ∀ roots : List Shape, (∀ r ∈ roots, r ∈ model.shapes) → ∀ enums front a back,
      collect model roots = .ok (enums, front ++ a :: back) →
        ∀ b ∈ front ++ a :: back, refers model a b → ¬ ReflTransGen (DependsOn model) b a →
          b ∈ front

/-- The second class of the input has no members, and stands in some relation to the first. -/
def firstTwo (check : Model → Shape → Shape → Bool) (model : Model) : Bool :=
  Outcome.passes (fun root => Outcome.passes (fun found => match found.2 with
    | a :: b :: _ => b.members.isEmpty && a.id ≠ b.id && check model a b
    | _ => false) (collect model [root])) (model.lookup "ns#In")

theorem not_orderedBy_of_firstTwo {j : Json} (hexact : j.isExact = true)
    {check : Model → Shape → Shape → Bool}
    (hrun : Outcome.passes (firstTwo check) (Loader.modelOf j) = true)
    {refers : Model → Shape → Shape → Prop}
    (hrefers : ∀ model, model.Sound → ∀ a b, IsRecord model a → IsRecord model b →
      check model a b = true → refers model a b) : ¬ OrderedBy refers := by
  intro hordered
  obtain ⟨model, hmodel, hrun⟩ := Outcome.exists_of_passes hrun
  have hload := (Model.load_compact hexact).trans hmodel
  have hsound := Model.load_sound hload
  obtain ⟨root, hroot, hrun⟩ := Outcome.exists_of_passes hrun
  obtain ⟨⟨enums, structs⟩, hcollect, hrun⟩ := Outcome.exists_of_passes hrun
  have hroots : ∀ r ∈ [root], r ∈ model.shapes := List.forall_mem_singleton.mpr
    (Model.mem_shapes_of_get (Outcome.mapError_eq_ok.mp hroot))
  obtain ⟨enums', structs', hcollect', -, hstructs⟩ := exists_collect hsound hroots
  cases hcollect.symm.trans hcollect'
  match structs, hrun with
  | a :: b :: rest, hrun =>
    simp only [Bool.and_eq_true, List.isEmpty_iff, decide_eq_true_eq] at hrun
    obtain ⟨⟨hempty, hne⟩, hcheck⟩ := hrun
    have hrecord {s : Shape} (hs : s ∈ a :: b :: rest) : IsRecord model s :=
      have hs := (hstructs s).mp hs
      ⟨hs.1.mem hroots, hs.2⟩
    have hback : ¬ ReflTransGen (DependsOn model) b a := by
      intro hpath
      rcases hpath.cases_head with rfl | ⟨c, ⟨next, hnext, hc⟩, -⟩
      · exact hne rfl
      · have hlength := (dependencies_mem hnext).2
        rw [hempty] at hlength
        rw [List.length_eq_zero_iff.mp (Nat.le_zero.mp hlength)] at hc
        cases hc
    have hb : b ∈ a :: b :: rest := List.mem_cons_of_mem _ List.mem_cons_self
    have hfront := hordered _ model hload [root] hroots enums [] a (b :: rest) hcollect b hb
      (hrefers model hsound a b (hrecord List.mem_cons_self) (hrecord hb) hcheck) hback
    cases hfront

/-- A map with structures as its keys, and a structure with such a map. -/
def keyedDocument : Json :=
  let map : Json := .map [("type", .text "map"), ("key", reference "ns#Key"),
    ("value", reference "ns#Leaf")]
  let key : Json := .map [("type", .text "structure"),
    ("members", .map [("keyed", reference "ns#Keyed")])]
  let leaf : Json := .map [("type", .text "structure"), ("members", .map [])]
  apiDocument (reference "ns#Keyed") [("ns#Keyed", map), ("ns#Key", key), ("ns#Leaf", leaf)]

/-- A class has a map whose values are of another. -/
def valuesOf (model : Model) (a b : Shape) : Bool :=
  a.members.any fun m => Outcome.passes (fun t =>
    t.kind = .map && Outcome.passes (·.id = b.id) (model.targetOf t.element)) (model.targetOf m)

/-- A class has a member with a member of another class. -/
def memberOf (model : Model) (a b : Shape) : Bool :=
  a.members.any fun m => Outcome.passes (fun t => t.kind = .struct && t.members.any fun n =>
    Outcome.passes (·.id = b.id) (model.targetOf n)) (model.targetOf m)

/-- A class can stand in front of one that does not lead back to it and that it refers to, be it
through the values of maps or through other structures. -/
theorem not_every_reference_behind :
    ¬ OrderedBy (fun model a b => ∃ m ∈ a.members, ∃ t, model.targetOf m = .ok t ∧
      ReflTransGen model.HoldsValues t b) ∧
    ¬ OrderedBy fun model a b => ReflTransGen (DependsOn model) a b := by
  constructor
  · have hrun : Outcome.passes (firstTwo valuesOf) (Loader.modelOf keyedDocument) = true := by
      decide +kernel
    refine not_orderedBy_of_firstTwo (by decide +kernel) hrun fun model hsound a b _ hb hcheck => ?_
    obtain ⟨m, hm, hcheck⟩ := List.any_eq_true.mp hcheck
    obtain ⟨t, ht, hcheck⟩ := Outcome.exists_of_passes hcheck
    obtain ⟨hkind, hcheck⟩ := (Bool.and_eq_true _ _).mp hcheck
    obtain ⟨u, hu, hid⟩ := Outcome.exists_of_passes hcheck
    have hholds : model.HoldsValues t u := ⟨Or.inr (of_decide_eq_true hkind), hu⟩
    rw [List.inj_on_of_nodup_map hsound.nodup hholds.mem hb.1 (of_decide_eq_true hid)] at hholds
    exact ⟨m, hm, t, ht, .single hholds⟩
  · have hrun : Outcome.passes (firstTwo memberOf) (Loader.modelOf circleDocument) = true := by
      decide +kernel
    refine not_orderedBy_of_firstTwo (by decide +kernel) hrun fun model hsound a b ha hb hcheck => ?_
    obtain ⟨m, hm, hcheck⟩ := List.any_eq_true.mp hcheck
    obtain ⟨t, ht, hcheck⟩ := Outcome.exists_of_passes hcheck
    obtain ⟨hkind, hcheck⟩ := (Bool.and_eq_true _ _).mp hcheck
    obtain ⟨n, hn, hcheck⟩ := List.any_eq_true.mp hcheck
    obtain ⟨u, hu, hid⟩ := Outcome.exists_of_passes hcheck
    have hfirst := dependsOn_target hsound ha.1 (isEnum_of_isAggregate ha.2) hm ht
    have haggregate : t.kind.isAggregate = true := by
      rw [of_decide_eq_true hkind]
      rfl
    have hsecond := dependsOn_target hsound hfirst.mem (isEnum_of_isAggregate haggregate) hn hu
    rw [List.inj_on_of_nodup_map hsound.nodup hsecond.mem hb.1 (of_decide_eq_true hid)] at hsecond
    exact .tail (.single hfirst) hsecond

end Wireform.Source
