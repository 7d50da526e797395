import Mathlib.Data.List.Forall2

/-
  Wireform outcomes: steps that can fail, one after the other. A chain of steps succeeds when every
  step does, and it fails with the failure of its first failing step. So the failures of a chain are
  of a kind if those of its steps are.
-/

namespace Wireform.Outcome

variable {ε α β : Type}

/-! ## Two steps -/

theorem bind_eq_ok {x : Except ε α} {f : α → Except ε β} {b : β} :
    (x >>= f) = .ok b ↔ ∃ a, x = .ok a ∧ f a = .ok b := by
  cases x with
  | error e =>
    constructor
    · intro h
      cases h
    · rintro ⟨a, h, -⟩
      cases h
  | ok a =>
    constructor
    · exact fun h => ⟨a, rfl, h⟩
    · rintro ⟨b, h, hf⟩
      cases h
      exact hf

theorem bind_eq_error {x : Except ε α} {f : α → Except ε β} {e : ε} :
    (x >>= f) = .error e ↔ x = .error e ∨ ∃ a, x = .ok a ∧ f a = .error e := by
  cases x with
  | error e' =>
    constructor
    · intro h
      cases h
      exact Or.inl rfl
    · rintro (h | ⟨a, h, -⟩)
      · cases h
        rfl
      · cases h
  | ok a =>
    constructor
    · exact fun h => Or.inr ⟨a, rfl, h⟩
    · rintro (h | ⟨b, h, hf⟩)
      · cases h
      · cases h
        exact hf

theorem map_eq_ok {x : Except ε α} {f : α → β} {b : β} :
    x.map f = .ok b ↔ ∃ a, x = .ok a ∧ f a = b := by
  cases x with
  | error e => simp [Except.map]
  | ok a => simp [Except.map]

theorem exists_map_eq_ok {x : Except ε α} {f : α → β} :
    (∃ b, x.map f = .ok b) ↔ ∃ a, x = .ok a := by
  cases x with
  | error e => simp [Except.map]
  | ok a => simp [Except.map]

theorem map_eq_error {x : Except ε α} {f : α → β} {e : ε} :
    x.map f = .error e ↔ x = .error e := by
  cases x with
  | error e' => simp [Except.map]
  | ok a => simp [Except.map]

theorem mapError_eq_ok {ε' : Type} {x : Except ε α} {f : ε → ε'} {a : α} :
    x.mapError f = .ok a ↔ x = .ok a := by
  cases x with
  | error e => simp [Except.mapError]
  | ok a' => simp [Except.mapError]

theorem mapError_eq_error {ε' : Type} {x : Except ε α} {f : ε → ε'} {e : ε'} :
    x.mapError f = .error e ↔ ∃ e', x = .error e' ∧ f e' = e := by
  cases x with
  | error e' => simp [Except.mapError]
  | ok a => simp [Except.mapError]

/-! ## One step for each element -/

theorem mapM_eq_ok {f : α → Except ε β} {xs : List α} {ys : List β} :
    xs.mapM f = .ok ys ↔ List.Forall₂ (fun x y => f x = .ok y) xs ys := by
  induction xs generalizing ys with
  | nil =>
    rw [List.mapM_nil, List.forall₂_nil_left_iff]
    exact ⟨fun h => by cases h; rfl, fun h => by rw [h]; rfl⟩
  | cons x xs ih =>
    rw [List.mapM_cons, List.forall₂_cons_left_iff, bind_eq_ok]
    constructor
    · rintro ⟨y, hy, h⟩
      obtain ⟨zs, hzs, h⟩ := bind_eq_ok.mp h
      cases h
      exact ⟨y, zs, hy, ih.mp hzs, rfl⟩
    · rintro ⟨y, zs, hy, hzs, rfl⟩
      exact ⟨y, hy, bind_eq_ok.mpr ⟨zs, ih.mpr hzs, rfl⟩⟩

/-- Two lists whose elements agree one by one have one image. -/
theorem map_eq_of_forall₂ {γ : Type} {r : α → β → Prop} {f : α → γ} {g : β → γ} {xs : List α}
    {ys : List β} (h : List.Forall₂ r xs ys) (hagree : ∀ x y, r x y → g y = f x) :
    ys.map g = xs.map f := by
  induction h with
  | nil => rfl
  | cons hxy _ ih => rw [List.map_cons, List.map_cons, hagree _ _ hxy, ih]

/-- Steps in groups are the steps one by one. -/
theorem mapM_flatMap {γ : Type} {f : α → Except ε β} {g : γ → List α} {cs : List γ} :
    (cs.flatMap g).mapM f = (cs.mapM fun c => (g c).mapM f).map List.flatten := by
  induction cs with
  | nil => rfl
  | cons c cs ih =>
    rw [List.flatMap_cons, List.mapM_append, ih, List.mapM_cons]
    cases (g c).mapM f with
    | error e => rfl
    | ok ys => cases cs.mapM fun c => (g c).mapM f <;> rfl

theorem mapM_eq_some {f : α → Option β} {xs : List α} {ys : List β} :
    xs.mapM f = some ys ↔ List.Forall₂ (fun x y => f x = some y) xs ys := by
  induction xs generalizing ys with
  | nil =>
    rw [List.mapM_nil, List.forall₂_nil_left_iff]
    exact ⟨fun h => by cases h; rfl, fun h => by rw [h]; rfl⟩
  | cons x xs ih =>
    rw [List.mapM_cons, List.forall₂_cons_left_iff]
    simp only [Option.bind_eq_bind, Option.bind_eq_some_iff, Option.pure_def, ih]
    constructor
    · rintro ⟨y, hy, zs, hzs, h⟩
      cases h
      exact ⟨y, zs, hy, hzs, rfl⟩
    · rintro ⟨y, zs, hy, hzs, rfl⟩
      exact ⟨y, hy, zs, hzs, rfl⟩

/-- Partners of all elements make a list. -/
theorem exists_forall₂ {r : α → β → Prop} {xs : List α} (h : ∀ x ∈ xs, ∃ y, r x y) :
    ∃ ys, List.Forall₂ r xs ys := by
  induction xs with
  | nil => exact ⟨[], .nil⟩
  | cons x xs ih =>
    obtain ⟨hx, hxs⟩ := List.forall_mem_cons.mp h
    obtain ⟨y, hy⟩ := hx
    obtain ⟨ys, hys⟩ := ih hxs
    exact ⟨y :: ys, .cons hy hys⟩

theorem exists_of_mem_forall₂ {r : α → β → Prop} {xs : List α} {ys : List β}
    (h : List.Forall₂ r xs ys) {y : β} (hy : y ∈ ys) : ∃ x ∈ xs, r x y := by
  induction h with
  | nil => exact absurd hy List.not_mem_nil
  | @cons x z xs zs hxz _ ih =>
    rcases List.mem_cons.mp hy with rfl | hy
    · exact ⟨x, List.mem_cons_self, hxz⟩
    · obtain ⟨w, hw, hwy⟩ := ih hy
      exact ⟨w, List.mem_cons_of_mem x hw, hwy⟩

theorem exists_mapM {f : α → Except ε β} {good : β → Prop} {xs : List α}
    (h : ∀ x ∈ xs, ∃ y, good y ∧ f x = .ok y) :
    ∃ ys, xs.mapM f = .ok ys ∧ ∀ y ∈ ys, good y := by
  induction xs with
  | nil => exact ⟨[], by rw [List.mapM_nil]; rfl, fun _ hy => absurd hy List.not_mem_nil⟩
  | cons x xs ih =>
    obtain ⟨y, hy, hx⟩ := h x List.mem_cons_self
    obtain ⟨ys, hys, hgood⟩ := ih fun z hz => h z (List.mem_cons_of_mem x hz)
    refine ⟨y :: ys, ?_, List.forall_mem_cons.mpr ⟨hy, hgood⟩⟩
    rw [List.mapM_cons]
    exact bind_eq_ok.mpr ⟨y, hx, bind_eq_ok.mpr ⟨ys, hys, rfl⟩⟩

theorem exists_of_mem_mapM {f : α → Except ε β} {xs : List α} {ys : List β}
    (h : xs.mapM f = .ok ys) {x : α} (hx : x ∈ xs) : ∃ y ∈ ys, f x = .ok y :=
  exists_of_mem_forall₂ (mapM_eq_ok.mp h).flip hx

theorem exists_mapM_eq_ok {f : α → Except ε β} {xs : List α} :
    (∃ ys, xs.mapM f = .ok ys) ↔ ∀ x ∈ xs, ∃ y, f x = .ok y := by
  constructor
  · rintro ⟨ys, h⟩ x hx
    obtain ⟨y, -, hy⟩ := exists_of_mem_mapM h hx
    exact ⟨y, hy⟩
  · intro h
    obtain ⟨ys, hys, -⟩ := exists_mapM fun x hx =>
      (h x hx).imp fun y hy => (⟨trivial, hy⟩ : True ∧ f x = .ok y)
    exact ⟨ys, hys⟩

theorem forM_eq_ok {f : α → Except ε Unit} {xs : List α} :
    xs.forM f = .ok () ↔ ∀ x ∈ xs, f x = .ok () := by
  induction xs with
  | nil => exact iff_of_true rfl fun _ hx => absurd hx List.not_mem_nil
  | cons x xs ih =>
    rw [List.forall_mem_cons, ← ih]
    show (f x >>= fun _ => xs.forM f) = .ok () ↔ _
    rw [bind_eq_ok]
    exact ⟨fun ⟨_, hx, hxs⟩ => ⟨hx, hxs⟩, fun ⟨hx, hxs⟩ => ⟨(), hx, hxs⟩⟩

/-- The first element that fails: all before it succeed, and `bad` holds of it. -/
def FirstFault (f : α → Except ε β) (bad : α → Prop) (xs : List α) : Prop :=
  ∃ before x after, xs = before ++ x :: after ∧ (∀ y ∈ before, ∃ b, f y = .ok b) ∧ bad x

theorem not_firstFault_nil {f : α → Except ε β} {bad : α → Prop} : ¬ FirstFault f bad [] := by
  rintro ⟨before, x, after, h, -⟩
  exact absurd h.symm (List.append_ne_nil_of_right_ne_nil before (List.cons_ne_nil x after))

theorem firstFault_cons {f : α → Except ε β} {bad : α → Prop} {x : α} {xs : List α} :
    FirstFault f bad (x :: xs) ↔ bad x ∨ (∃ b, f x = .ok b) ∧ FirstFault f bad xs := by
  constructor
  · rintro ⟨before, y, after, h, hok, hbad⟩
    cases before with
    | nil =>
      rw [List.nil_append, List.cons.injEq] at h
      exact Or.inl (h.1 ▸ hbad)
    | cons z before =>
      rw [List.cons_append, List.cons.injEq] at h
      exact Or.inr ⟨h.1 ▸ hok z List.mem_cons_self, before, y, after, h.2,
        fun w hw => hok w (List.mem_cons_of_mem z hw), hbad⟩
  · rintro (hbad | ⟨hx, before, y, after, rfl, hok, hbad⟩)
    · exact ⟨[], x, xs, rfl, fun _ h => absurd h List.not_mem_nil, hbad⟩
    · refine ⟨x :: before, y, after, rfl, fun w hw => ?_, hbad⟩
      rcases List.mem_cons.mp hw with rfl | hw
      · exact hx
      · exact hok w hw

theorem mapM_eq_error {f : α → Except ε β} {xs : List α} {e : ε} :
    xs.mapM f = .error e ↔ FirstFault f (fun x => f x = .error e) xs := by
  induction xs with
  | nil =>
    rw [List.mapM_nil]
    constructor
    · intro h
      cases h
    · exact fun h => absurd h not_firstFault_nil
  | cons x xs ih =>
    rw [List.mapM_cons, bind_eq_error, firstFault_cons, ← ih]
    constructor
    · rintro (h | ⟨y, hy, h⟩)
      · exact Or.inl h
      · rcases bind_eq_error.mp h with h | ⟨_, _, h⟩
        · exact Or.inr ⟨⟨y, hy⟩, h⟩
        · cases h
    · rintro (h | ⟨⟨y, hy⟩, h⟩)
      · exact Or.inl h
      · exact Or.inr ⟨y, hy, bind_eq_error.mpr (Or.inl h)⟩

theorem exists_firstFault {f : α → Except ε β} {bad : ε → Prop} {xs : List α} :
    (∃ e, FirstFault f (fun x => f x = .error e) xs ∧ bad e) ↔
      FirstFault f (fun x => ∃ e, f x = .error e ∧ bad e) xs := by
  constructor
  · rintro ⟨e, ⟨before, x, after, hxs, hok, hx⟩, he⟩
    exact ⟨before, x, after, hxs, hok, e, hx, he⟩
  · rintro ⟨before, x, after, hxs, hok, e, hx, he⟩
    exact ⟨e, ⟨before, x, after, hxs, hok, hx⟩, he⟩

theorem exists_mapM_eq_error {f : α → Except ε β} {bad : ε → Prop} {xs : List α} :
    (∃ e, xs.mapM f = .error e ∧ bad e) ↔
      FirstFault f (fun x => ∃ e, f x = .error e ∧ bad e) xs := by
  simp only [mapM_eq_error, exists_firstFault]

theorem forM_eq_error {f : α → Except ε Unit} {xs : List α} {e : ε} :
    xs.forM f = .error e ↔ FirstFault f (fun x => f x = .error e) xs := by
  induction xs with
  | nil => exact iff_of_false (fun h => by cases h) not_firstFault_nil
  | cons x xs ih =>
    show (f x >>= fun _ => xs.forM f) = .error e ↔ _
    rw [firstFault_cons, ← ih, bind_eq_error, exists_and_right]

theorem firstFault_map {γ : Type} {f : α → Except ε β} {bad : α → Prop} {g : γ → α} {cs : List γ} :
    FirstFault f bad (cs.map g) ↔ FirstFault (fun c => f (g c)) (fun c => bad (g c)) cs := by
  induction cs with
  | nil => exact iff_of_false not_firstFault_nil not_firstFault_nil
  | cons c cs ih => rw [List.map_cons, firstFault_cons, firstFault_cons, ih]

/-- Which element is the first fault depends on where `f` succeeds, and not on its values. -/
theorem firstFault_congr {ε' γ : Type} {f : α → Except ε β} {g : α → Except ε' γ}
    {bad bad' : α → Prop} (hok : ∀ x, (∃ b, f x = .ok b) ↔ ∃ c, g x = .ok c)
    (hbad : ∀ x, bad x ↔ bad' x) {xs : List α} : FirstFault f bad xs ↔ FirstFault g bad' xs := by
  unfold FirstFault
  simp only [hok, hbad]

/-- Two lists with elements that succeed and fail alike have their first faults at one place. -/
theorem firstFault_of_forall₂ {ε' γ δ : Type} {r : α → γ → Prop} {f : α → Except ε β}
    {g : γ → Except ε' δ} {bad : α → Prop} {bad' : γ → Prop} {xs : List α} {ys : List γ}
    (h : List.Forall₂ r xs ys) (hok : ∀ x y, r x y → ((∃ b, f x = .ok b) ↔ ∃ d, g y = .ok d))
    (hbad : ∀ x y, r x y → (bad x ↔ bad' y)) : FirstFault f bad xs ↔ FirstFault g bad' ys := by
  induction h with
  | nil => exact iff_of_false not_firstFault_nil not_firstFault_nil
  | @cons x y _ _ hxy _ ih => rw [firstFault_cons, firstFault_cons, hok x y hxy, hbad x y hxy, ih]

theorem firstFault_congr_of_mem {f : α → Except ε β} {bad bad' : α → Prop} {xs : List α}
    (h : ∀ x ∈ xs, bad x ↔ bad' x) : FirstFault f bad xs ↔ FirstFault f bad' xs := by
  have hsame : List.Forall₂ (fun x y => x = y ∧ x ∈ xs) xs xs :=
    List.forall₂_same.mpr fun x hx => ⟨rfl, hx⟩
  refine firstFault_of_forall₂ hsame ?_ ?_
  · rintro x y ⟨rfl, -⟩
    exact Iff.rfl
  · rintro x y ⟨rfl, hx⟩
    exact h x hx

theorem firstFault_append {f : α → Except ε β} {bad : α → Prop} {xs ys : List α} :
    FirstFault f bad (xs ++ ys) ↔
      FirstFault f bad xs ∨ (∃ zs, xs.mapM f = .ok zs) ∧ FirstFault f bad ys := by
  induction xs with
  | nil =>
    rw [List.nil_append, List.mapM_nil]
    exact ⟨fun h => Or.inr ⟨⟨[], rfl⟩, h⟩, fun h => h.elim (absurd · not_firstFault_nil) And.right⟩
  | cons x xs ih =>
    have hmap : (∃ zs, (x :: xs).mapM f = .ok zs) ↔
        (∃ y, f x = .ok y) ∧ ∃ zs, xs.mapM f = .ok zs := by
      rw [List.mapM_cons]
      simp only [bind_eq_ok]
      constructor
      · rintro ⟨_, y, hy, zs, hzs, -⟩
        exact ⟨⟨y, hy⟩, zs, hzs⟩
      · rintro ⟨⟨y, hy⟩, zs, hzs⟩
        exact ⟨_, y, hy, zs, hzs, rfl⟩
    rw [List.cons_append, firstFault_cons, firstFault_cons, ih, hmap]
    constructor
    · rintro (hbad | ⟨hx, hxs | ⟨hok, hys⟩⟩)
      · exact Or.inl (Or.inl hbad)
      · exact Or.inl (Or.inr ⟨hx, hxs⟩)
      · exact Or.inr ⟨⟨hx, hok⟩, hys⟩
    · rintro ((hbad | ⟨hx, hxs⟩) | ⟨⟨hx, hok⟩, hys⟩)
      · exact Or.inl hbad
      · exact Or.inr ⟨hx, Or.inl hxs⟩
      · exact Or.inr ⟨hx, Or.inr ⟨hok, hys⟩⟩

/-- The first fault in a list of lists is the first one in all of them one after the other. -/
theorem firstFault_flatMap {γ : Type} {f : α → Except ε β} {bad : α → Prop} {g : γ → List α}
    {cs : List γ} : FirstFault f bad (cs.flatMap g) ↔
      FirstFault (fun c => (g c).mapM f) (fun c => FirstFault f bad (g c)) cs := by
  induction cs with
  | nil => exact iff_of_false not_firstFault_nil not_firstFault_nil
  | cons c cs ih => rw [List.flatMap_cons, firstFault_append, firstFault_cons, ih]

/-- Steps that hand a state on fail where one of them does, and those before it succeed. -/
theorem foldlM_eq_error {f : β → α → Except ε β} {xs : List α} {b : β} {e : ε} :
    xs.foldlM f b = .error e ↔
      ∃ before x after c, xs = before ++ x :: after ∧ before.foldlM f b = .ok c ∧
        f c x = .error e := by
  induction xs generalizing b with
  | nil =>
    refine iff_of_false (fun h => by cases h) ?_
    rintro ⟨before, x, after, _, h, -⟩
    exact List.append_ne_nil_of_right_ne_nil before (List.cons_ne_nil x after) h.symm
  | cons x xs ih =>
    rw [List.foldlM_cons, bind_eq_error]
    constructor
    · rintro (h | ⟨c, hc, h⟩)
      · exact ⟨[], x, xs, b, rfl, rfl, h⟩
      · obtain ⟨before, y, after, d, rfl, hd, hy⟩ := ih.mp h
        refine ⟨x :: before, y, after, d, rfl, ?_, hy⟩
        rw [List.foldlM_cons, hc]
        exact hd
    · rintro ⟨before, y, after, d, h, hd, hy⟩
      cases before with
      | nil =>
        obtain ⟨rfl, -⟩ := List.cons.inj h
        cases hd
        exact Or.inl hy
      | cons z before =>
        obtain ⟨rfl, rfl⟩ := List.cons.inj h
        rw [List.foldlM_cons] at hd
        obtain ⟨c, hc, hd⟩ := bind_eq_ok.mp hd
        exact Or.inr ⟨c, hc, ih.mpr ⟨before, y, after, d, rfl, hd, hy⟩⟩

/-! ## Kinds of failure -/

/-- Whether a step fails only with errors of a kind, if it fails. -/
def FailsOnly (bad : ε → Prop) (x : Except ε α) : Prop := ∀ e, x = .error e → bad e

variable {bad : ε → Prop}

theorem failsOnly_ok (a : α) : FailsOnly bad (.ok a : Except ε α) := fun _ h => by cases h

theorem failsOnly_of_eq_ok {x : Except ε α} {a : α} (h : x = .ok a) : FailsOnly bad x :=
  h ▸ failsOnly_ok a

theorem failsOnly_error {e : ε} (he : bad e) : FailsOnly bad (.error e : Except ε α) :=
  fun _ h => Except.error.inj h ▸ he

/-- A step that fails with no error succeeds. -/
theorem failsOnly_false {x : Except ε α} : FailsOnly (fun _ => False) x ↔ ∃ a, x = .ok a := by
  cases x with
  | error e => exact ⟨fun h => (h e rfl).elim, fun ⟨_, h⟩ => by cases h⟩
  | ok a => exact iff_of_true (failsOnly_ok a) ⟨a, rfl⟩

theorem FailsOnly.imp {bad' : ε → Prop} {x : Except ε α} (h : FailsOnly bad x)
    (himp : ∀ e, bad e → bad' e) : FailsOnly bad' x := fun e he => himp e (h e he)

theorem FailsOnly.bind {x : Except ε α} {f : α → Except ε β} (hx : FailsOnly bad x)
    (hf : ∀ a, x = .ok a → FailsOnly bad (f a)) : FailsOnly bad (x >>= f) := by
  intro e he
  rcases bind_eq_error.mp he with he | ⟨a, ha, he⟩
  · exact hx e he
  · exact hf a ha e he

theorem failsOnly_bind {x : Except ε α} {f : α → Except ε β} :
    FailsOnly bad (x >>= f) ↔ FailsOnly bad x ∧ ∀ a, x = .ok a → FailsOnly bad (f a) := by
  refine ⟨fun h => ⟨fun e he => ?_, fun a ha e he => ?_⟩, fun h => h.1.bind h.2⟩
  · exact h e (bind_eq_error.mpr (Or.inl he))
  · exact h e (bind_eq_error.mpr (Or.inr ⟨a, ha, he⟩))

theorem FailsOnly.map {x : Except ε α} (hx : FailsOnly bad x) (f : α → β) :
    FailsOnly bad (x.map f) := fun e he => hx e (map_eq_error.mp he)

theorem failsOnly_mapError {ε' : Type} {bad : ε' → Prop} {x : Except ε α} {f : ε → ε'} :
    FailsOnly bad (x.mapError f) ↔ FailsOnly (fun e => bad (f e)) x := by
  constructor
  · exact fun h e he => h _ (mapError_eq_error.mpr ⟨e, he, rfl⟩)
  · intro h e he
    obtain ⟨e', he', rfl⟩ := mapError_eq_error.mp he
    exact h e' he'

theorem FailsOnly.mapM {f : α → Except ε β} {xs : List α} (h : ∀ x ∈ xs, FailsOnly bad (f x)) :
    FailsOnly bad (xs.mapM f) := by
  intro e he
  obtain ⟨before, x, after, rfl, -, hx⟩ := mapM_eq_error.mp he
  exact h x (List.mem_append_right _ List.mem_cons_self) e hx

/-- Steps whose first failure is the failure of one step succeed when that one does. -/
theorem exists_mapM_iff {γ : Type} {f : α → Except ε β} {xs : List α} {y : Except ε γ}
    (h : ∀ e, FirstFault f (fun x => f x = .error e) xs ↔ y = .error e) :
    (∃ zs, xs.mapM f = .ok zs) ↔ ∃ b, y = .ok b := by
  rw [← failsOnly_false, ← failsOnly_false]
  refine forall_congr' fun e => ?_
  rw [mapM_eq_error, h e]

/-! ## Kinds of results -/

/-- A step gives only results of a kind. -/
def Gives (good : α → Prop) (x : Except ε α) : Prop := ∀ a, x = .ok a → good a

theorem gives_ok {good : α → Prop} {a : α} (ha : good a) : Gives good (.ok a : Except ε α) := by
  rintro _ ⟨⟩
  exact ha

theorem Gives.bind {good : β → Prop} {x : Except ε α} {f : α → Except ε β}
    (h : ∀ a, x = .ok a → Gives good (f a)) : Gives good (x >>= f) := by
  intro b hb
  obtain ⟨a, ha, hb⟩ := bind_eq_ok.mp hb
  exact h a ha b hb

/-! ## Checks that can be run -/

/-- Whether a step succeeds with a result that passes a check. -/
def passes (check : α → Bool) : Except ε α → Bool
  | .ok a => check a
  | .error _ => false

/-- Whether a step fails with an error. -/
def failsWith [DecidableEq ε] (e : ε) : Except ε α → Bool
  | .ok _ => false
  | .error e' => e' = e

theorem exists_of_passes {check : α → Bool} {x : Except ε α} (h : passes check x = true) :
    ∃ a, x = .ok a ∧ check a = true := by
  cases x with
  | ok a => exact ⟨a, rfl, h⟩
  | error e => cases h

theorem eq_error_of_failsWith [DecidableEq ε] {e : ε} {x : Except ε α}
    (h : failsWith e x = true) : x = .error e := by
  cases x with
  | ok a => cases h
  | error e' => rw [of_decide_eq_true h]

end Wireform.Outcome
