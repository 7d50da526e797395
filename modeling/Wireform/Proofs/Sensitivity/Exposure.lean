import Mathlib.Data.List.Nodup
import Wireform.Proofs.Model.Loaded
import Wireform.Proofs.Sensitivity.Marks
import Wireform.Sensitivity.Coverage

/-
  Wireform sensitivity: what the walks find in a closed model whose ids are all different, be it
  cyclic or not. They never fail there, and they find the members behind a sensitive node that the
  root leads to, and no others.
-/

namespace Wireform

open Relation (ReflTransGen)

/-! ## The graph -/

/-- A shape leads to its members unless it is an operation or a service, and a member to its
target. -/
inductive Node.Edge (model : Model) : Node → Node → Prop
  | member {s : Shape} {m : Member} (hm : m ∈ s.members) (hoperation : s.kind ≠ .operation)
      (hservice : s.kind ≠ .service) : Edge model (.shape s) (.member m)
  | target {m : Member} {t : Shape} (ht : model.find? m.target = some t) :
      Edge model (.member m) (.shape t)

/-- Whether a path from the root to a node goes over a sensitive node, which may be its end. -/
def Node.BehindMark (model : Model) (root : Shape) (n : Node) : Prop :=
  ∃ s, ReflTransGen (Edge model) (.shape root) s ∧ s.Marked model ∧ ReflTransGen (Edge model) s n

namespace Model

/-- All shapes and members. -/
def nodes (model : Model) : List Node := model.shapes.flatMap fun s => (Node.shape s).around

/-- Every member of every shape has its target among the shapes. -/
def Closed (model : Model) : Prop :=
  ∀ s ∈ model.shapes, ∀ m ∈ s.members, (model.find? m.target).isSome = true

theorem shape_mem_nodes {model : Model} {s : Shape} : .shape s ∈ model.nodes ↔ s ∈ model.shapes := by
  unfold nodes
  rw [List.mem_flatMap]
  constructor
  · rintro ⟨t, ht, hs⟩
    rcases List.mem_cons.mp hs with hs | hs
    · cases hs
      exact ht
    · obtain ⟨m, -, hm⟩ := List.mem_map.mp hs
      cases hm
  · exact fun hs => ⟨s, hs, List.mem_cons_self⟩

theorem member_mem_nodes {model : Model} {m : Member} :
    .member m ∈ model.nodes ↔ ∃ s ∈ model.shapes, m ∈ s.members := by
  unfold nodes
  rw [List.mem_flatMap]
  refine exists_congr fun s => and_congr_right fun _ => ?_
  constructor
  · intro hm
    rcases List.mem_cons.mp hm with hm | hm
    · cases hm
    · obtain ⟨k, hk, he⟩ := List.mem_map.mp hm
      cases he
      exact hk
  · exact fun hm => List.mem_cons_of_mem _ (List.mem_map.mpr ⟨m, hm, rfl⟩)

end Model

namespace Node

variable {model : Model} {root : Shape}

theorem leads_iff {a b : Node} : Leads model a b ↔ Edge model a b := by
  constructor
  · rintro ⟨ns, hns, hb⟩
    cases a with
    | member m =>
      obtain ⟨t, ht, rfl⟩ := Outcome.map_eq_ok.mp hns
      rw [List.mem_singleton.mp hb]
      exact .target (Model.get_eq_ok.mp (Model.targetOf_eq_ok.mp ht))
    | shape s =>
      unfold next at hns
      cases hns
      split at hb
      · exact absurd hb List.not_mem_nil
      · next hkind =>
        simp only [Bool.or_eq_true, decide_eq_true_eq, not_or] at hkind
        obtain ⟨m, hm, rfl⟩ := List.mem_map.mp hb
        exact .member hm hkind.1 hkind.2
  · intro h
    cases h with
    | member hm hoperation hservice =>
      refine ⟨_, rfl, ?_⟩
      rw [if_neg (by simp [hoperation, hservice])]
      exact List.mem_map.mpr ⟨_, hm, rfl⟩
    | target ht =>
      have htarget := Model.targetOf_eq_ok.mpr (Model.get_eq_ok.mpr ht)
      exact ⟨_, Outcome.map_eq_ok.mpr ⟨_, htarget, rfl⟩, List.mem_singleton.mpr rfl⟩

theorem leads_eq (model : Model) : Leads model = Edge model :=
  funext fun _ => funext fun _ => propext leads_iff

theorem exposed_iff {n : Node} : Exposed model root n ↔ BehindMark model root n := by
  unfold Exposed BehindMark Reaches
  rw [leads_eq]

theorem mem_nodes_of_edge {a b : Node} (h : Edge model a b) (ha : a ∈ model.nodes) :
    b ∈ model.nodes := by
  cases h with
  | member hm _ _ => exact Model.member_mem_nodes.mpr ⟨_, Model.shape_mem_nodes.mp ha, hm⟩
  | target ht => exact Model.shape_mem_nodes.mpr (List.mem_of_find?_eq_some ht)

theorem mem_nodes_of_reaches {a b : Node} (h : Reaches model a b) (ha : a ∈ model.nodes) :
    b ∈ model.nodes := by
  induction h with
  | refl => exact ha
  | tail _ hstep ih => exact mem_nodes_of_edge (leads_iff.mp hstep) ih

/-- Where all ids of a model differ, a root tells the nodes that it reaches apart. -/
theorem distinct_of_nodup (hids : (model.nodes.map Node.id).Nodup) (hroot : root ∈ model.shapes) :
    Distinct model root := by
  have hstart : .shape root ∈ model.nodes := Model.shape_mem_nodes.mpr hroot
  intro a b ha hb hid
  exact List.inj_on_of_nodup_map hids (mem_nodes_of_reaches ha hstart)
    (mem_nodes_of_reaches hb hstart) hid

/-- In a closed model every node leads somewhere, if only to nothing. -/
theorem exists_next (hclosed : model.Closed) {n : Node} (hn : n ∈ model.nodes) :
    ∃ ns, n.next model = .ok ns := by
  cases n with
  | shape s => exact ⟨_, rfl⟩
  | member m =>
    obtain ⟨s, hs, hm⟩ := Model.member_mem_nodes.mp hn
    obtain ⟨t, ht⟩ := Option.isSome_iff_exists.mp (hclosed s hs m hm)
    have htarget := Model.targetOf_eq_ok.mpr (Model.get_eq_ok.mpr ht)
    exact ⟨_, Outcome.map_eq_ok.mpr ⟨t, htarget, rfl⟩⟩

theorem exists_isSensitive (hclosed : model.Closed) {n : Node} (hn : n ∈ model.nodes) :
    ∃ b, n.isSensitive model = .ok b := by
  cases n with
  | shape s => exact ⟨_, rfl⟩
  | member m =>
    obtain ⟨s, hs, hm⟩ := Model.member_mem_nodes.mp hn
    obtain ⟨t, ht⟩ := Option.isSome_iff_exists.mp (hclosed s hs m hm)
    unfold isSensitive Model.isSensitive
    dsimp only
    split
    · exact ⟨true, rfl⟩
    · exact ⟨_, Outcome.mapError_eq_ok.mpr
        (Outcome.map_eq_ok.mpr ⟨t, Model.get_eq_ok.mpr ht, rfl⟩)⟩

end Node

namespace Sensitivity

variable {model : Model} {root : Shape}

/-! ## The walks do not fail -/

theorem exists_visitTop (hclosed : model.Closed) {n : Node} (hn : n ∈ model.nodes) :
    ∃ x, visitTop model n = .ok x := by
  obtain ⟨b, hb⟩ := Node.exists_isSensitive hclosed hn
  obtain ⟨ns, hns⟩ := Node.exists_next hclosed hn
  cases b with
  | true => exact ⟨(true, []), Outcome.bind_eq_ok.mpr ⟨true, hb, rfl⟩⟩
  | false =>
    exact ⟨(false, ns), Outcome.bind_eq_ok.mpr
      ⟨false, hb, Outcome.bind_eq_ok.mpr ⟨ns, hns, rfl⟩⟩⟩

theorem exists_topmost (hclosed : model.Closed) (hroot : root ∈ model.shapes) :
    ∃ tops, topmost model root = .ok tops := by
  rw [← Outcome.failsOnly_false]
  refine .bind (fun e he => ?_) fun _ _ => Outcome.failsOnly_ok _
  obtain ⟨n, hn, he⟩ := ((run_visitTop model root).eq_error_iff e).mp he
  obtain ⟨k, hk, hreach⟩ := hn.reached
  rw [List.mem_singleton.mp hk] at hreach
  obtain ⟨x, hx⟩ := exists_visitTop hclosed (Node.mem_nodes_of_reaches
    (reaches_of_visitTop hreach) (Model.shape_mem_nodes.mpr hroot))
  rw [hx] at he
  cases he

theorem exists_membersFrom (hclosed : model.Closed) {start : Node} (hstart : start ∈ model.nodes) :
    ∃ ids, membersFrom model start = .ok ids := by
  rw [← Outcome.failsOnly_false]
  refine .bind (fun e he => ?_) fun _ _ => Outcome.failsOnly_ok _
  obtain ⟨n, hn, he⟩ := ((run_visitAll model start).eq_error_iff e).mp he
  obtain ⟨k, hk, hreach⟩ := hn.reached
  rw [List.mem_singleton.mp hk] at hreach
  obtain ⟨ns, hns⟩ := Node.exists_next hclosed
    (Node.mem_nodes_of_reaches (reaches_visitAll.mp hreach) hstart)
  unfold visitAll at he
  rw [hns] at he
  cases he

theorem exists_memberIds (hclosed : model.Closed) (hroot : root ∈ model.shapes) :
    ∃ ids, memberIds model root = .ok ids := by
  obtain ⟨tops, htops⟩ := exists_topmost hclosed hroot
  rw [← Outcome.failsOnly_false]
  refine .bind (htops ▸ Outcome.failsOnly_ok _) fun ts hts => ?_
  obtain rfl : tops = ts := by
    rw [htops] at hts
    exact Except.ok.inj hts
  refine .bind (.mapM fun t ht => Outcome.failsOnly_false.mpr ?_) fun _ _ => Outcome.failsOnly_ok _
  exact exists_membersFrom hclosed (Node.mem_nodes_of_reaches (exposed_of_mem_topmost htops ht).1
    (Model.shape_mem_nodes.mpr hroot))

/-! ## What they find -/

/-- The walks find the members behind a sensitive node, and the bindings that are kept are those of
such members outside the body. -/
theorem finds_members_behind_marks (hclosed : model.Closed)
    (hids : (model.nodes.map Node.id).Nodup) (hroot : root ∈ model.shapes) :
    (∃ ids, memberIds model root = .ok ids ∧
      ∀ id, id ∈ ids ↔ ∃ m : Member, m.id = id ∧ Node.BehindMark model root (.member m)) ∧
    ∀ bs : List Binding, (∀ b ∈ bs, ∃ s ∈ model.shapes, b.member ∈ s.members) →
      ∃ keep : Binding → Bool, Coverage.bindingsOf model root bs = .ok (bs.filter keep) ∧
        ∀ b ∈ bs, keep b = true ↔ Node.BehindMark model root (.member b.member) ∧
          b.location ≠ .document ∧ b.location ≠ .payload := by
  obtain ⟨ids, hok⟩ := exists_memberIds hclosed hroot
  have hmem : ∀ id, id ∈ ids ↔
      ∃ m : Member, m.id = id ∧ Node.BehindMark model root (.member m) := by
    intro id
    simp only [mem_memberIds_of_distinct (Node.distinct_of_nodup hids hroot) hok,
      Node.exposed_iff]
  refine ⟨⟨ids, hok, hmem⟩, fun bs hbs => ?_⟩
  refine ⟨_, Outcome.bind_eq_ok.mpr ⟨ids, hok, rfl⟩, fun b hb => ?_⟩
  simp only [Bool.and_eq_true, List.contains_eq_mem, decide_eq_true_eq, hmem, and_assoc]
  refine and_congr_left fun _ => ⟨?_, fun h => ⟨b.member, rfl, h⟩⟩
  -- a member of the model with the id of the bound one is the bound one
  rintro ⟨m, hid, s, hs, hmarked, hm⟩
  rw [← Node.leads_eq] at hs hm
  have hnode : .member m ∈ model.nodes :=
    Node.mem_nodes_of_reaches (hs.trans hm) (Model.shape_mem_nodes.mpr hroot)
  have hsame := List.inj_on_of_nodup_map hids hnode (Model.member_mem_nodes.mpr (hbs b hb)) hid
  rw [← hsame]
  exact ⟨s, Node.leads_eq model ▸ hs, hmarked, Node.leads_eq model ▸ hm⟩

/-- A node of a chain: it leads to the next one and to a part that is hidden. -/
def chainNode : Shape :=
  { Shape.bare "ns#Node" .struct with
    members := [⟨"next", "ns#Node", "ns#Node", []⟩, ⟨"part", "ns#Part", "ns#Node", []⟩] }

/-- Chains with sensitive parts that lead back to their nodes. -/
def chainModel : Model :=
  ⟨[chainNode,
    { Shape.bare "ns#Part" .struct with
      traits := [(Trait.sensitive, .map [])]
      members := [⟨"owner", "ns#Node", "ns#Part", []⟩] }]⟩

/-- A member that the walk first comes to before any sensitive node is found all the same when a
sensitive node leads back to it. -/
theorem finds_chain_next :
    (chainModel.Closed ∧ (chainModel.nodes.map Node.id).Nodup ∧ chainNode ∈ chainModel.shapes) ∧
    ∃ ids, memberIds chainModel chainNode = .ok ids ∧ "ns#Node$next" ∈ ids := by
  have hclosed : chainModel.Closed := by
    unfold Model.Closed
    decide +kernel
  have hids : (chainModel.nodes.map Node.id).Nodup := by decide +kernel
  have hroot : chainNode ∈ chainModel.shapes := List.mem_cons_self
  obtain ⟨⟨ids, hok, hmem⟩, -⟩ := finds_members_behind_marks hclosed hids hroot
  refine ⟨⟨hclosed, hids, hroot⟩, ids, hok, (hmem _).mpr ?_⟩
  refine ⟨⟨"next", "ns#Node", "ns#Node", []⟩, rfl, ?_⟩
  -- from the root to its part, which is sensitive, and from there back to the root
  let part : Member := ⟨"part", "ns#Part", "ns#Node", []⟩
  let owner : Member := ⟨"owner", "ns#Node", "ns#Part", []⟩
  have hpart : Node.Edge chainModel (.shape chainNode) (.member part) :=
    .member (by simp [chainNode, part]) (by decide) (by decide)
  have hhidden : chainModel.find? "ns#Part" = some { Shape.bare "ns#Part" .struct with
      traits := [(Trait.sensitive, .map [])], members := [owner] } := rfl
  refine ⟨.member part, .single hpart, Or.inr ⟨_, Model.get_eq_ok.mpr hhidden, rfl⟩, ?_⟩
  refine .head (.target hhidden) (.head (.member List.mem_cons_self ?_ ?_) (.head (.target rfl)
    (.single (.member List.mem_cons_self ?_ ?_))))
  all_goals decide

end Sensitivity

end Wireform
