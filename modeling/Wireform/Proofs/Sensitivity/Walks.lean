import Mathlib.Logic.Relation
import Wireform.Proofs.Outcome
import Wireform.Sensitivity.Walk

/-
  Wireform walks: what a walk through shapes and members visits. The fuel is never used up, since
  each id is left once and what a node puts on the stack is counted in it beforehand. So every walk
  has a run to its end. It fails at a node that it comes to, and a walk that ends without an error
  has been at every id that its start leads to.
-/

namespace Wireform

open Relation (ReflTransGen)

/-! ## One walk -/

namespace Walk

variable {α : Type} {visit : Node → Except AnalysisError (α × List Node)}

/-- A step of a walk. -/
def Step (visit : Node → Except AnalysisError (α × List Node)) (a b : Node) : Prop :=
  ∃ r ns, visit a = .ok (r, ns) ∧ b ∈ ns

/-- What a walk from a stack visits when the ids in `seen` were left before. -/
structure Visits (visit : Node → Except AnalysisError (α × List Node)) (seen : List String)
    (stack : List Node) (out : List (Node × α)) : Prop where
  stacked : ∀ n ∈ stack, n.id ∈ seen ∨ ∃ x ∈ out, x.1.id = n.id
  visited : ∀ x ∈ out, ∃ ns, visit x.1 = .ok (x.2, ns) ∧
    ∀ n ∈ ns, n.id ∈ seen ∨ ∃ y ∈ out, y.1.id = n.id
  reached : ∀ x ∈ out, ∃ n ∈ stack, ReflTransGen (Step visit) n x.1

theorem Visits.nil (seen : List String) : Visits visit seen [] [] :=
  ⟨fun _ hn => absurd hn List.not_mem_nil, fun _ hx => absurd hx List.not_mem_nil,
    fun _ hx => absurd hx List.not_mem_nil⟩

theorem Visits.skip {seen : List String} {n : Node} {stack : List Node} {out : List (Node × α)}
    (h : Visits visit seen stack out) (hn : n.id ∈ seen) : Visits visit seen (n :: stack) out := by
  refine ⟨fun k hk => ?_, h.visited, fun x hx => ?_⟩
  · rcases List.mem_cons.mp hk with rfl | hk
    · exact Or.inl hn
    · exact h.stacked k hk
  · obtain ⟨k, hk, hreach⟩ := h.reached x hx
    exact ⟨k, List.mem_cons_of_mem n hk, hreach⟩

theorem Visits.leave {seen : List String} {n : Node} {r : α} {ns stack : List Node}
    {out : List (Node × α)} (hn : visit n = .ok (r, ns))
    (h : Visits visit (n.id :: seen) (ns.reverse ++ stack) out) :
    Visits visit seen (n :: stack) ((n, r) :: out) := by
  have hkeep : ∀ k : Node, (k.id ∈ n.id :: seen ∨ ∃ x ∈ out, x.1.id = k.id) →
      k.id ∈ seen ∨ ∃ x ∈ (n, r) :: out, x.1.id = k.id := by
    rintro k (hk | ⟨x, hx, hid⟩)
    · rcases List.mem_cons.mp hk with hk | hk
      · exact Or.inr ⟨(n, r), List.mem_cons_self, hk.symm⟩
      · exact Or.inl hk
    · exact Or.inr ⟨x, List.mem_cons_of_mem _ hx, hid⟩
  refine ⟨fun k hk => ?_, fun x hx => ?_, fun x hx => ?_⟩
  · rcases List.mem_cons.mp hk with rfl | hk
    · exact Or.inr ⟨(k, r), List.mem_cons_self, rfl⟩
    · exact hkeep k (h.stacked k (List.mem_append_right _ hk))
  · rcases List.mem_cons.mp hx with rfl | hx
    · exact ⟨ns, hn, fun k hk =>
        hkeep k (h.stacked k (List.mem_append_left _ (List.mem_reverse.mpr hk)))⟩
    · obtain ⟨ks, hks, hmem⟩ := h.visited x hx
      exact ⟨ks, hks, fun k hk => hkeep k (hmem k hk)⟩
  · rcases List.mem_cons.mp hx with rfl | hx
    · exact ⟨n, List.mem_cons_self, .refl⟩
    · obtain ⟨k, hk, hreach⟩ := h.reached x hx
      rcases List.mem_append.mp hk with hk | hk
      · exact ⟨n, List.mem_cons_self, hreach.head ⟨r, ns, hn, List.mem_reverse.mp hk⟩⟩
      · exact ⟨k, List.mem_cons_of_mem n hk, hreach⟩

/-! ## Runs without a bound -/

/-- A walk to its end: what it visits, or the error that it stops with. -/
inductive Run (visit : Node → Except AnalysisError (α × List Node)) :
    List String → List Node → Except AnalysisError (List (Node × α)) → Prop
  | done (seen : List String) : Run visit seen [] (.ok [])
  | skip {seen : List String} {n : Node} {stack : List Node}
      {r : Except AnalysisError (List (Node × α))} (hn : n.id ∈ seen)
      (h : Run visit seen stack r) : Run visit seen (n :: stack) r
  | fail {seen : List String} {n : Node} (stack : List Node) {e : AnalysisError}
      (hn : n.id ∉ seen) (he : visit n = .error e) : Run visit seen (n :: stack) (.error e)
  | leave {seen : List String} {n : Node} {stack ns : List Node} {a : α}
      {r : Except AnalysisError (List (Node × α))} (hn : n.id ∉ seen) (ha : visit n = .ok (a, ns))
      (h : Run visit (n.id :: seen) (ns.reverse ++ stack) r) :
      Run visit seen (n :: stack) (r.map ((n, a) :: ·))

/-- A walk comes to a node: it takes the node from the stack, and its id was not left before. -/
inductive Comes (visit : Node → Except AnalysisError (α × List Node)) :
    List String → List Node → Node → Prop
  | here {seen : List String} {n : Node} (stack : List Node) (hn : n.id ∉ seen) :
      Comes visit seen (n :: stack) n
  | skip {seen : List String} {n k : Node} {stack : List Node} (hn : n.id ∈ seen)
      (h : Comes visit seen stack k) : Comes visit seen (n :: stack) k
  | leave {seen : List String} {n k : Node} {stack ns : List Node} {a : α} (hn : n.id ∉ seen)
      (ha : visit n = .ok (a, ns)) (h : Comes visit (n.id :: seen) (ns.reverse ++ stack) k) :
      Comes visit seen (n :: stack) k

theorem comes_skip {seen : List String} {n k : Node} {stack : List Node} (hn : n.id ∈ seen) :
    Comes visit seen (n :: stack) k ↔ Comes visit seen stack k := by
  constructor
  · intro h
    cases h with
    | here _ hnew => exact absurd hn hnew
    | skip _ h => exact h
    | leave hnew _ _ => exact absurd hn hnew
  · exact Comes.skip hn

theorem comes_fail {seen : List String} {n k : Node} {stack : List Node} {e : AnalysisError}
    (hn : n.id ∉ seen) (he : visit n = .error e) : Comes visit seen (n :: stack) k ↔ k = n := by
  constructor
  · intro h
    cases h with
    | here _ _ => rfl
    | skip hold _ => exact absurd hold hn
    | leave _ ha _ => rw [he] at ha; cases ha
  · rintro rfl
    exact .here stack hn

theorem comes_leave {seen : List String} {n k : Node} {stack ns : List Node} {a : α}
    (hn : n.id ∉ seen) (ha : visit n = .ok (a, ns)) :
    Comes visit seen (n :: stack) k ↔
      k = n ∨ Comes visit (n.id :: seen) (ns.reverse ++ stack) k := by
  constructor
  · intro h
    cases h with
    | here _ _ => exact Or.inl rfl
    | skip hold _ => exact absurd hold hn
    | leave _ ha' h =>
      rw [ha] at ha'
      cases ha'
      exact Or.inr h
  · rintro (rfl | h)
    · exact .here stack hn
    · exact .leave hn ha h

/-- A walk fails with the error of a node that it comes to. -/
theorem Run.eq_error_iff {seen : List String} {stack : List Node}
    {r : Except AnalysisError (List (Node × α))} (h : Run visit seen stack r) (e : AnalysisError) :
    r = .error e ↔ ∃ n, Comes visit seen stack n ∧ visit n = .error e := by
  induction h with
  | done seen =>
    refine iff_of_false (fun h => by cases h) ?_
    rintro ⟨n, hn, -⟩
    cases hn
  | skip hn _ ih =>
    rw [ih]
    exact exists_congr fun k => and_congr_left fun _ => (comes_skip hn).symm
  | @fail seen n stack e' hn he =>
    simp only [comes_fail hn he, exists_eq_left, he, Except.error.injEq]
  | @leave seen n stack ns a r hn ha _ ih =>
    rw [Outcome.map_eq_error, ih]
    constructor
    · rintro ⟨k, hk, he⟩
      exact ⟨k, .leave hn ha hk, he⟩
    · rintro ⟨k, hk, he⟩
      rcases (comes_leave hn ha).mp hk with rfl | hk
      · rw [ha] at he
        cases he
      · exact ⟨k, hk, he⟩

/-- A walk that ends without an error visits the nodes that it comes to. -/
theorem Run.mem_iff {seen : List String} {stack : List Node} {out : List (Node × α)}
    (h : Run visit seen stack (.ok out)) {n : Node} :
    (∃ a, (n, a) ∈ out) ↔ Comes visit seen stack n := by
  generalize hr : Except.ok out = r at h
  induction h generalizing out with
  | done seen =>
    cases hr
    refine iff_of_false (fun ⟨_, h⟩ => absurd h List.not_mem_nil) fun h => by cases h
  | skip hn _ ih => rw [ih hr, comes_skip hn]
  | fail => cases hr
  | @leave seen k stack ns a r hn ha _ ih =>
    obtain ⟨rest, rfl, rfl⟩ := Outcome.map_eq_ok.mp hr.symm
    rw [comes_leave hn ha, ← ih rfl]
    constructor
    · rintro ⟨b, hb⟩
      rcases List.mem_cons.mp hb with hb | hb
      · cases hb
        exact Or.inl rfl
      · exact Or.inr ⟨b, hb⟩
    · rintro (rfl | ⟨b, hb⟩)
      · exact ⟨a, List.mem_cons_self⟩
      · exact ⟨b, List.mem_cons_of_mem _ hb⟩

theorem Comes.reached {seen : List String} {stack : List Node} {n : Node}
    (h : Comes visit seen stack n) : ∃ k ∈ stack, ReflTransGen (Step visit) k n := by
  induction h with
  | here stack _ => exact ⟨_, List.mem_cons_self, .refl⟩
  | skip _ _ ih =>
    obtain ⟨k, hk, hreach⟩ := ih
    exact ⟨k, List.mem_cons_of_mem _ hk, hreach⟩
  | @leave seen n k stack ns a _ ha _ ih =>
    obtain ⟨j, hj, hreach⟩ := ih
    rcases List.mem_append.mp hj with hj | hj
    · exact ⟨n, List.mem_cons_self, hreach.head ⟨a, ns, ha, List.mem_reverse.mp hj⟩⟩
    · exact ⟨j, List.mem_cons_of_mem n hj, hreach⟩

theorem Run.visits {seen : List String} {stack : List Node} {out : List (Node × α)}
    (h : Run visit seen stack (.ok out)) : Visits visit seen stack out := by
  generalize hr : Except.ok out = r at h
  induction h generalizing out with
  | done seen =>
    cases hr
    exact .nil seen
  | skip hn _ ih => exact (ih hr).skip hn
  | fail => cases hr
  | leave _ ha _ ih =>
    obtain ⟨rest, rfl, rfl⟩ := Outcome.map_eq_ok.mp hr.symm
    exact (ih rfl).leave ha

/-! ## Fuel -/

/-- How many nodes can still be put on the stack by nodes that were not left yet. -/
def waiting (width : Node → Nat) (seen : List String) : List Node → Nat
  | [] => 0
  | n :: ns => (if seen.contains n.id then 0 else width n) + waiting width seen ns

theorem waiting_append (width : Node → Nat) (seen : List String) (ns ks : List Node) :
    waiting width seen (ns ++ ks) = waiting width seen ns + waiting width seen ks := by
  induction ns with
  | nil => exact (Nat.zero_add _).symm
  | cons n ns ih => rw [List.cons_append, waiting, waiting, ih, Nat.add_assoc]

theorem waiting_leave_le (width : Node → Nat) (seen : List String) (id : String) (ns : List Node) :
    waiting width (id :: seen) ns ≤ waiting width seen ns := by
  induction ns with
  | nil => exact Nat.le_refl 0
  | cons n ns ih =>
    rw [waiting, waiting, List.contains_cons]
    cases seen.contains n.id with
    | true =>
      rw [Bool.or_true]
      exact Nat.add_le_add_left ih _
    | false =>
      rw [Bool.or_false]
      split
      · omega
      · exact Nat.add_le_add_left ih _

/-- Once a node is left, its width is no longer counted. -/
theorem waiting_leave {width : Node → Nat} {seen : List String} {n : Node} {ns : List Node}
    (hn : n ∈ ns) (hseen : seen.contains n.id = false) :
    waiting width (n.id :: seen) ns + width n ≤ waiting width seen ns := by
  induction ns with
  | nil => exact absurd hn List.not_mem_nil
  | cons k ks ih =>
    rw [waiting, waiting]
    rcases List.mem_cons.mp hn with rfl | hn
    · have hle := waiting_leave_le width seen n.id ks
      rw [List.contains_cons, beq_self_eq_true, Bool.true_or, if_pos rfl, hseen,
        if_neg Bool.false_ne_true]
      omega
    · have hle := ih hn
      rw [List.contains_cons]
      cases seen.contains k.id with
      | true =>
        rw [Bool.or_true]
        omega
      | false =>
        rw [Bool.or_false, if_neg Bool.false_ne_true]
        split
        · omega
        · omega

/-- With enough fuel a walk is never cut short. -/
theorem run_walk {width : Node → Nat} {nodes : List Node}
    (hclosed : ∀ n ∈ nodes, ∀ r ns, visit n = .ok (r, ns) →
      (∀ k ∈ ns, k ∈ nodes) ∧ ns.length ≤ width n)
    {fuel : Nat} {seen : List String} {stack : List Node} (hstack : ∀ n ∈ stack, n ∈ nodes)
    (hfuel : stack.length + waiting width seen nodes ≤ fuel) :
    Run visit seen stack (walk visit fuel seen stack) := by
  induction fuel generalizing seen stack with
  | zero =>
    cases stack with
    | nil => exact .done seen
    | cons n stack =>
      rw [List.length_cons] at hfuel
      omega
  | succ fuel ih =>
    cases stack with
    | nil => exact .done seen
    | cons n stack =>
      rw [List.length_cons] at hfuel
      have hrest : ∀ k ∈ stack, k ∈ nodes := fun k hk => hstack k (List.mem_cons_of_mem n hk)
      rw [walk]
      split
      · next hseen =>
        rw [List.contains_eq_mem, decide_eq_true_eq] at hseen
        exact .skip hseen (ih hrest (by omega))
      · next hseen =>
        have hnew : n.id ∉ seen := by simpa using hseen
        rw [Bool.not_eq_true] at hseen
        have hn := hstack n List.mem_cons_self
        have hleave := @waiting_leave width _ _ _ hn hseen
        cases hvisit : visit n with
        | error e => exact .fail stack hnew hvisit
        | ok x =>
          obtain ⟨r, ns⟩ := x
          obtain ⟨hns, hwidth⟩ := hclosed n hn r ns hvisit
          refine .leave hnew hvisit (ih ?_ ?_)
          · intro k hk
            rcases List.mem_append.mp hk with hk | hk
            · exact hns k (List.mem_reverse.mp hk)
            · exact hrest k hk
          · rw [List.length_append, List.length_reverse]
            omega

end Walk

/-! ## The graph of a model -/

namespace Node

/-- One node leads to another. -/
def Leads (model : Model) (a b : Node) : Prop := ∃ ns, a.next model = .ok ns ∧ b ∈ ns

/-- One node leads to another in any number of steps. -/
def Reaches (model : Model) : Node → Node → Prop := ReflTransGen (Leads model)

/-- A node and its members. -/
def around : Node → List Node
  | shape s => shape s :: s.members.map member
  | member m => [member m]

/-- How many nodes a node leads to at most. -/
def width : Node → Nat
  | shape s => s.members.length
  | member _ => 1

theorem self_mem_around (n : Node) : n ∈ n.around := by
  cases n with
  | shape s => exact List.mem_cons_self
  | member m => exact List.mem_cons_self

theorem member_mem_around {n : Node} {s : Shape} (hs : shape s ∈ n.around) {m : Member}
    (hm : m ∈ s.members) : member m ∈ n.around := by
  cases n with
  | shape t =>
    rcases List.mem_cons.mp hs with hs | hs
    · cases hs
      exact List.mem_cons_of_mem _ (List.mem_map.mpr ⟨m, hm, rfl⟩)
    · obtain ⟨k, -, hk⟩ := List.mem_map.mp hs
      cases hk
  | member k => cases List.mem_singleton.mp hs

end Node

namespace Model

/-- The nodes that a walk from `start` can visit, and maybe more. -/
def nodesFrom (model : Model) (start : Node) : List Node :=
  start.around ++ model.shapes.flatMap fun s => (Node.shape s).around

theorem mem_shapes_of_get {model : Model} {id : String} {s : Shape} (h : model.get id = .ok s) :
    s ∈ model.shapes := by
  unfold get at h
  split at h
  · next hfind =>
    cases h
    exact List.mem_of_find?_eq_some hfind
  · cases h

theorem targetOf_eq_ok {model : Model} {m : Member} {s : Shape} :
    model.targetOf m = .ok s ↔ model.target m = .ok s := Outcome.mapError_eq_ok

theorem next_mem_nodesFrom {model : Model} {start n : Node} (hn : n ∈ model.nodesFrom start)
    {ns : List Node} (h : n.next model = .ok ns) :
    (∀ k ∈ ns, k ∈ model.nodesFrom start) ∧ ns.length ≤ n.width := by
  cases n with
  | member m =>
    obtain ⟨s, hs, rfl⟩ := Outcome.map_eq_ok.mp h
    have hshape : s ∈ model.shapes := mem_shapes_of_get (targetOf_eq_ok.mp hs)
    refine ⟨fun k hk => ?_, Nat.le_refl 1⟩
    rw [List.mem_singleton.mp hk]
    exact List.mem_append_right _ (List.mem_flatMap.mpr ⟨s, hshape, Node.self_mem_around _⟩)
  | shape s =>
    unfold Node.next at h
    cases h
    split
    · exact ⟨fun k hk => absurd hk List.not_mem_nil, Nat.zero_le _⟩
    · refine ⟨fun k hk => ?_, Nat.le_of_eq (List.length_map ..)⟩
      obtain ⟨m, hm, rfl⟩ := List.mem_map.mp hk
      rcases List.mem_append.mp hn with hs | hs
      · exact List.mem_append_left _ (Node.member_mem_around hs hm)
      · obtain ⟨t, ht, hs⟩ := List.mem_flatMap.mp hs
        exact List.mem_append_right _
          (List.mem_flatMap.mpr ⟨t, ht, Node.member_mem_around hs hm⟩)

theorem waiting_members (ms : List Member) :
    Walk.waiting Node.width [] (ms.map Node.member) = ms.length := by
  induction ms with
  | nil => rfl
  | cons m ms ih =>
    have hone : Node.width (.member m) = 1 := rfl
    rw [List.map_cons, Walk.waiting, ih, List.contains_nil, if_neg Bool.false_ne_true, hone,
      List.length_cons]
    omega

theorem waiting_around (s : Shape) :
    Walk.waiting Node.width [] (Node.shape s).around = 2 * s.members.length := by
  have hwidth : Node.width (.shape s) = s.members.length := rfl
  rw [Node.around, Walk.waiting, waiting_members, List.contains_nil, if_neg Bool.false_ne_true,
    hwidth]
  omega

/-- The fuel counts everything that can ever wait. -/
theorem waiting_le_walkFuel (model : Model) (start : Node) :
    1 + Walk.waiting Node.width [] (model.nodesFrom start) ≤ model.walkFuel start := by
  have hshapes : ∀ ss : List Shape,
      Walk.waiting Node.width [] (ss.flatMap fun s => (Node.shape s).around) ≤
        (ss.map fun s => 2 * s.members.length + 1).foldr (· + ·) 0 := by
    intro ss
    induction ss with
    | nil => exact Nat.le_refl 0
    | cons s ss ih =>
      rw [List.flatMap_cons, Walk.waiting_append, waiting_around, List.map_cons, List.foldr_cons]
      omega
  have hall := hshapes model.shapes
  unfold nodesFrom walkFuel
  rw [Walk.waiting_append]
  cases start with
  | shape s =>
    rw [waiting_around]
    dsimp only
    omega
  | member m =>
    show 1 + (1 + _) ≤ _
    dsimp only
    omega

end Model

namespace Walk

variable {α : Type} {visit : Node → Except AnalysisError (α × List Node)} {model : Model}

/-- A walk along the graph from one node comes to its end. -/
theorem run_walk_start (hvisit : ∀ n r ns, visit n = .ok (r, ns) →
      ns = [] ∨ n.next model = .ok ns) (start : Node) :
    Run visit [] [start] (walk visit (model.walkFuel start) [] [start]) := by
  have hclosed : ∀ n ∈ model.nodesFrom start, ∀ r ns, visit n = .ok (r, ns) →
      (∀ k ∈ ns, k ∈ model.nodesFrom start) ∧ ns.length ≤ n.width := by
    intro n hn r ns hok
    rcases hvisit n r ns hok with rfl | hnext
    · exact ⟨fun k hk => absurd hk List.not_mem_nil, Nat.zero_le _⟩
    · exact Model.next_mem_nodesFrom hn hnext
  refine run_walk hclosed ?_ (Model.waiting_le_walkFuel model start)
  intro n hn
  rw [List.mem_singleton.mp hn]
  exact List.mem_append_left _ (Node.self_mem_around start)

end Walk

end Wireform
